import FoosballApi.Matches.FailedOperations
import FoosballApi.Matches.Invariant
import FoosballApi.Matches.RequestScope

/-!
# Cancelling erases the confirmation phase

Between the submission of a result and its cancellation players may vote, and any call of a vote
may fail. As long as the votes stay below the quorum the cancellation leaves the world as it was
before the submission but for the scores and `updated_at` of the match, the time, and the jobs
that were added (`cancel_erases_confirmation`). A new submission and the votes on it then go as if
there had been no first round.
-/

namespace FoosballApi.Matches

open Calls Data Prog World Users

/-- A confirm call on a match, some of whose calls may fail, or time passing. -/
inductive Attempt where
  | confirm (userId : UserId) (fails : List Call → Call → Bool)
  | tick (elapsed : Nat)

/-- What a confirm call leaves. -/
def World.confirmed (w : World) (matchId : MatchId) (userId : UserId)
    (fails : List Call → Call → Bool) :
    Outcome Call Failure Session World ConfirmationStatusResult :=
  (ConfirmationService.confirm matchId userId).eval system fails [] {} w

/-- What a submission of a result leaves. -/
def World.submitted (w : World) (matchId : MatchId) (userId : UserId) (dto : SubmitResultDto) :
    Outcome Call Failure Session World MatchEntity :=
  (MatchService.submitResult matchId userId dto).eval system noFaults [] {} w

/-- What a cancellation leaves. -/
def World.cancelled (w : World) (matchId : MatchId) (userId : UserId) :
    Outcome Call Failure Session World ConfirmationStatusResult :=
  (ConfirmationService.cancel matchId userId).eval system noFaults [] {} w

/-- The world at another time. -/
def World.atTime (w : World) (time : Date) : World := { w with clock := time }

/-- The world after an attempt. -/
def Attempt.after (matchId : MatchId) (w : World) : Attempt → World
  | .confirm userId fails => (w.confirmed matchId userId fails).world
  | .tick elapsed => w.atTime (w.clock + elapsed)

/-- The world after attempts. -/
def World.attempts (w : World) (matchId : MatchId) (attempts : List Attempt) : World :=
  attempts.foldl (Attempt.after matchId) w

/-- What the confirm calls among the attempts end with, and the calls they make. -/
def World.answers (w : World) (matchId : MatchId) :
    List Attempt → List (Except Failure ConfirmationStatusResult × List Call)
  | [] => []
  | .confirm userId fails :: rest =>
      let out := w.confirmed matchId userId fails
      (out.result, out.calls) :: answers out.world matchId rest
  | .tick elapsed :: rest => answers (w.atTime (w.clock + elapsed)) matchId rest

variable {α : Type} {calls : List Call} {s : Session} {w w' : World} {matchId : MatchId}
  {userId : UserId} {r : MatchRow} {fails : List Call → Call → Bool}

/-! ## One confirm call -/

/-- A call fails and changes nothing, or it is carried out and the rest follows. -/
theorem await_bind_after {op : Call} {next : op.Result → Api α} {value : op.Result}
    {s' : Session} {Q : Outcome Call Failure Session World α → Prop}
    (hexec : exec op s w = (.ok value, s', w'))
    (hfailed : ∀ failure, Q ⟨.error failure, op :: calls, s, w⟩)
    (hnext : (next value).after system fails (op :: calls) s' w' Q) :
    (await op >>= next).after system fails calls s w Q := by
  rcases system.perform_cases (fails calls op) op s w with hdone | ⟨failure, -, hfails⟩
  · exact (after_perform_ok (hdone.trans hexec)).mpr hnext
  · exact (after_perform_error hfails).mpr (hfailed failure)

/-- The `catch` and `finally` blocks of `confirm` write nothing. -/
theorem catchFinally_after_world {body : Api α} {P : World → Prop}
    (hbody : body.after system fails calls s w fun out => P out.world) :
    (catchFinally body
      (fun err => do
        await .rollbackTransaction
        Prog.throw err)
      (await .release)).after system fails calls s w fun out => P out.world := by
  have hrollback : ∀ failing s w, (system.perform failing .rollbackTransaction s w).2.2 = w := by
    rintro (_ | _) ⟨_ | _, _⟩ w <;> rfl
  have hrelease : ∀ failing s w, (system.perform failing .release s w).2.2 = w := by
    rintro (_ | _) s w <;> rfl
  -- Whatever outcome is handed on, the world is the one the release leaves.
  have hend : ∀ (outcome : Except Failure α) calls s w, P w →
      (do
        await .release
        resume outcome).after system fails calls s w fun out => P out.world := by
    intro outcome calls s w hw
    rw [after_bind, after_perform]
    rw [← hrelease (fails calls .release) s w] at hw
    cases (system.perform (fails calls .release) .release s w).1 with
    | error failure => exact hw
    | ok value => exact after_resume.mpr hw
  refine after_catchFinally.mpr (after_mono hbody fun out hout => ?_)
  obtain ⟨result, calls, s₁, w₁⟩ := out
  cases result with
  | ok value => exact hend _ _ _ _ hout
  | error failure =>
      rw [after_bind, after_perform]
      rw [← hrollback (fails calls .rollbackTransaction) s₁ w₁] at hout
      cases (system.perform (fails calls .rollbackTransaction) .rollbackTransaction s₁ w₁).1 with
      | error failure => exact hend _ _ _ _ hout
      | ok value => exact hend _ _ _ _ hout

/-- The `if (!existing)` block leaves the caller's vote in the transaction, or fails. -/
theorem saveVote_after_any {P : World → Prop} {next : Unit → Api α} (hsame : P w)
    (hnext : ∀ calls, (next ()).after system fails calls ⟨some (w.voteWrites matchId userId), true⟩ w
      fun out => P out.world) :
    (ConfirmationService.saveVote matchId userId (w.confirmations.get (matchId, userId)) >>=
      next).after system fails calls ⟨some [], true⟩ w fun out => P out.world := by
  unfold ConfirmationService.saveVote
  unfold voteWrites at hnext
  cases hget : w.confirmations.get (matchId, userId) with
  | some vote =>
      rw [hget] at hnext
      exact hnext calls
  | none =>
      rw [hget] at hnext
      dsimp only
      rw [Prog.bind_assoc]
      exact await_bind_after rfl (fun _ => hsame) (hnext _)

/-- The end of the locked section, with any calls failing: nothing is committed, or the vote is, or
at the quorum the confirmation is. -/
theorem settle_after_any {P : World → Prop} (hsame : P w)
    (hvoted : ¬ w.QuorumReached matchId userId → P (w.votedWorld matchId userId))
    (hconfirmed : w.QuorumReached matchId userId → ∀ w',
      SameTables ((w.votedWorld matchId userId).saveMatch ⟨r.confirmedAtTime w.clock, none⟩) w' →
        P w') :
    (ConfirmationService.settle matchId (w.roster matchId) ⟨r, none⟩
      ((w.votedWorld matchId userId).votes matchId)).after system fails calls
        ⟨some (w.voteWrites matchId userId), true⟩ w fun out => P out.world := by
  unfold ConfirmationService.settle
  split
  · next hquorum =>
      have hdone : ∀ w', SameTables ((w.votedWorld matchId userId).saveMatch
          ⟨r.confirmedAtTime w.clock, none⟩) w' → P w' := hconfirmed hquorum
      have hcommit : exec .commitTransaction ⟨some (w.voteWrites matchId userId ++
          [.saveMatch ⟨r.confirmedAtTime w.clock, none⟩]), true⟩ w =
            (.ok (), {}, (w.votedWorld matchId userId).saveMatch
              ⟨r.confirmedAtTime w.clock, none⟩) := by
        simp only [exec, Session.view_some, List.foldl_append]
        rfl
      unfold ConfirmationService.confirmMatch
      simp only [Prog.bind_assoc]
      refine await_bind_after rfl (fun _ => hsame) ?_
      refine await_bind_after rfl (fun _ => hsame) ?_
      refine await_bind_after hcommit (fun _ => hsame) ?_
      refine await_bind_after rfl (fun _ => hdone _ (.refl _)) ?_
      refine await_bind_after rfl (fun _ => hdone _ (.refl _)) ?_
      refine await_bind_after rfl (fun _ => hdone _ (sameTables_enqueue _ .matchesQueue _)) ?_
      refine await_bind_after rfl (fun _ => hdone _ (sameTables_enqueue _ .matchesQueue _)) ?_
      exact hdone _ ((sameTables_enqueue _ .matchesQueue _).trans
        (sameTables_enqueue _ .leaderboardQueue _))
  · next hbelow =>
      refine await_bind_after rfl (fun _ => hsame) ?_
      exact hvoted hbelow

/-- A confirm call, with any calls failing, leaves the tables, or commits the caller's vote, or at
the quorum the confirmation. -/
theorem confirm_after_any {P : World → Prop} (hsame : P w)
    (hvoted : ∀ r, w.Confirmable matchId userId r → ¬ w.QuorumReached matchId userId →
      P (w.votedWorld matchId userId))
    (hconfirmed : ∀ r, w.Confirmable matchId userId r → w.QuorumReached matchId userId → ∀ w',
      SameTables ((w.votedWorld matchId userId).saveMatch ⟨r.confirmedAtTime w.clock, none⟩) w' →
        P w') :
    P (w.confirmed matchId userId fails).world := by
  have hspec : (ConfirmationService.confirm matchId userId).after system fails [] {} w fun out =>
      P out.world := by
    unfold ConfirmationService.confirm
    refine await_bind_after rfl (fun _ => hsame) ?_
    rw [after_bind, after_require]
    refine ⟨fun _ => hsame, fun m hm => ?_⟩
    obtain ⟨r, hrow, rfl⟩ := Option.map_eq_some_iff.mp hm
    refine after_throwIf_bind.mpr ⟨fun _ => hsame, fun hawait => ?_⟩
    refine await_bind_after rfl (fun _ => hsame) ?_
    refine after_throwIf_bind.mpr ⟨fun _ => hsame, fun hplayer => ?_⟩
    refine await_bind_after rfl (fun _ => hsame) ?_
    have hawait : r.status = .awaitingConfirmation := not_not.mp hawait
    have hmay : w.Confirmable matchId userId r := ⟨hrow, hawait, not_not.mp hplayer⟩
    refine await_bind_after rfl (fun _ => hsame) (catchFinally_after_world ?_)
    unfold ConfirmationService.lockedSection
    refine await_bind_after rfl (fun _ => hsame) ?_
    rw [Session.view_some, List.foldl_nil, hrow, Option.map_some, Option.filter_some]
    rw [if_pos (decide_eq_true hawait)]
    unfold ConfirmationService.castVote
    refine await_bind_after rfl (fun _ => hsame) ?_
    rw [Session.view_some, List.foldl_nil]
    refine saveVote_after_any hsame fun calls => ?_
    refine await_bind_after rfl (fun _ => hsame) ?_
    exact settle_after_any hsame (hvoted r hmay) (hconfirmed r hmay)
  exact hspec

/-! ## Attempts below the quorum -/

/-- The match is confirmed, with at least this many votes. -/
def Settled (matchId : MatchId) (quorum : Nat) (w : World) : Prop :=
  (∃ r, w.row matchId = some r ∧ r.status = .confirmed) ∧ quorum ≤ (w.votes matchId).length

/-- Apart from the votes on the match and the time, the world is as it was, or the match is
confirmed. -/
def VotesOnly (start : World) (matchId : MatchId) (w : World) : Prop :=
  w.deleteAllConfirmations matchId = (start.deleteAllConfirmations matchId).atTime w.clock ∨
    Settled matchId (calculateQuorum (start.roster matchId).length) w

/-- Deleting the votes on a match deletes a new vote too. -/
theorem deleteAllConfirmations_votedWorld (w : World) (matchId : MatchId) (userId : UserId) :
    (w.votedWorld matchId userId).deleteAllConfirmations matchId =
      w.deleteAllConfirmations matchId := by
  unfold votedWorld voteWrites
  cases hget : w.confirmations.get (matchId, userId) with
  | some vote => rfl
  | none =>
      have hkeep : (w.confirmations.put (w.newConfirmation matchId userId)).keep
          (·.matchId ≠ matchId) = w.confirmations.keep (·.matchId ≠ matchId) := by
        apply Table.keep_put_of_false
        · simp [newConfirmation]
        · intro old hold
          cases hget.symm.trans hold
      simp only [List.foldl_cons, List.foldl_nil, Write.commit, putConfirmation,
        deleteAllConfirmations, hkeep]

variable {start : World}

/-- An attempt changes the votes on the match and the time, or confirms the match with a quorum. -/
theorem VotesOnly.step (h : VotesOnly start matchId w) (attempt : Attempt) :
    VotesOnly start matchId (attempt.after matchId w) := by
  cases attempt with
  | tick elapsed =>
      rcases h with h | h
      · have htick : (w.atTime (w.clock + elapsed)).deleteAllConfirmations matchId =
            (w.deleteAllConfirmations matchId).atTime (w.clock + elapsed) := rfl
        left
        rw [Attempt.after, htick, h]
        rfl
      · exact .inr h
  | confirm userId fails =>
      refine confirm_after_any h (fun r hmay _ => ?_) fun r hmay hquorum w' htables => ?_
      all_goals
        have hnot : ¬ Settled matchId (calculateQuorum (start.roster matchId).length) w := by
          rintro ⟨⟨r', hrow, hconfirmed⟩, -⟩
          obtain rfl := Option.some.inj (hrow.symm.trans hmay.row)
          exact MatchStatus.awaitingConfirmation_ne_confirmed (hmay.awaiting.symm.trans hconfirmed)
        have h := h.resolve_right hnot
      · have hclock : (w.votedWorld matchId userId).clock = w.clock := by rw [votedWorld_eq]
        left
        rw [deleteAllConfirmations_votedWorld, h, hclock]
      · obtain rfl := id_of_row hmay.row
        have hall := congrArg World.players h
        have hplayers : w.players = start.players := hall
        have hroster : w.roster r.id = start.roster r.id := by
          rw [World.roster, World.roster, hplayers]
        have hvoted : (w.votedWorld r.id userId).row r.id = some r := by
          rw [row_votedWorld]
          exact hmay.row
        have hsaved : ∃ t, ((w.votedWorld r.id userId).saveMatch
            ⟨r.confirmedAtTime w.clock, none⟩).row r.id =
              some { r.confirmedAtTime w.clock with updatedAt := t } :=
          row_saveMatch (m := ⟨r.confirmedAtTime w.clock, none⟩) hvoted
        obtain ⟨t, hrow⟩ := hsaved
        right
        refine ⟨⟨{ r.confirmedAtTime w.clock with updatedAt := t }, ?_, rfl⟩, ?_⟩
        · rw [htables.row]
          exact hrow
        · rw [htables.votes, votes_saveMatch, ← hroster]
          exact hquorum

/-- Attempts that leave the votes below the quorum change nothing but the votes on the match and
the time. -/
theorem attempts_below_quorum (attempts : List Attempt)
    (hbelow : ((start.attempts matchId attempts).votes matchId).length <
      calculateQuorum (start.roster matchId).length) :
    (start.attempts matchId attempts).deleteAllConfirmations matchId =
      (start.deleteAllConfirmations matchId).atTime (start.attempts matchId attempts).clock := by
  have hrun : ∀ attempts w, VotesOnly start matchId w →
      VotesOnly start matchId (w.attempts matchId attempts) := by
    intro attempts
    induction attempts with
    | nil => intro w h; exact h
    | cons attempt rest ih => intro w h; exact ih _ (h.step attempt)
  have hend := hrun attempts start (.inl rfl)
  rcases hend with hend | ⟨-, hquorum⟩
  · exact hend
  · omega

/-! ## Submission and cancellation -/

/-- The row with a submitted result. -/
def MatchRow.submittedRow (r : MatchRow) (dto : SubmitResultDto) (updatedAt : Date) : MatchRow :=
  { r with
    scoreA := some dto.scoreA
    scoreB := some dto.scoreB
    status := .awaitingConfirmation
    updatedAt := updatedAt }

/-- A submission for a full match in play, by its creator, answers with the saved match, and changes
the row and one queue. -/
theorem submitted_playing (dto : SubmitResultDto) (hrow : w.row matchId = some r)
    (hcreator : r.createdBy = some userId) (hplaying : r.status = .playing)
    (hfull : (w.roster matchId).length = matchCapacity r.matchType) :
    (w.submitted matchId userId dto).result =
        .ok ⟨r.submittedRow dto w.clock, some (w.roster matchId)⟩ ∧
      ∃ jobs, (w.submitted matchId userId dto).world =
        { w with matchRows := w.matchRows.put (r.submittedRow dto w.clock), matchesQueue := jobs } := by
  obtain rfl := id_of_row hrow
  let saved : MatchEntity := ⟨{ r with
    scoreA := some dto.scoreA
    scoreB := some dto.scoreB
    status := .awaitingConfirmation }, some (w.roster r.id)⟩
  have hchanged : r ≠ saved.toMatchRow := by
    intro hsame
    have hstatus : r.status = .awaitingConfirmation := congrArg MatchRow.status hsame
    rw [hplaying] at hstatus
    cases hstatus
  have hsave : w.saveMatch saved =
      { w with matchRows := w.matchRows.put (r.submittedRow dto w.clock) } :=
    saveMatch_of_ne (m := saved) hrow rfl hchanged
  have hentity : savedEntity (w.saveMatch saved) saved =
      ⟨r.submittedRow dto w.clock, some (w.roster r.id)⟩ := by
    have hget : (w.matchRows.put (r.submittedRow dto w.clock)).get r.id =
        some (r.submittedRow dto w.clock) :=
      Table.get_put_self w.matchRows (r.submittedRow dto w.clock)
    rw [savedEntity, hsave]
    show MatchEntity.mk ((((w.matchRows.put (r.submittedRow dto w.clock)).get r.id)).getD _) _ = _
    rw [hget]
    rfl
  have hspec : (MatchService.submitResult r.id userId dto).after system noFaults [] {} w fun out =>
      out.result = .ok ⟨r.submittedRow dto w.clock, some (w.roster r.id)⟩ ∧ ∃ jobs, out.world =
        { w with
          matchRows := w.matchRows.put (r.submittedRow dto w.clock)
          matchesQueue := jobs } := by
    unfold MatchService.submitResult
    rw [after_bind]
    refine findById_after (fun hnone => ?_) fun r' hrow' => ?_
    · cases hnone.symm.trans hrow
    obtain rfl := Option.some.inj (hrow'.symm.trans hrow)
    have hopen : ¬ r'.status.Locked := by simp [MatchStatus.Locked, hplaying]
    simp only [MatchService.checkEditable, after_bind, after_throwIf, not_notCreator, after_perform,
      perform_noFaults, exec, Nat.not_lt, pure_eq, after_pure]
    refine ⟨fun hother => absurd hcreator hother, fun _ => ⟨fun hlocked => absurd hlocked hopen,
      fun _ => ⟨fun hshort => ?_, fun _ => ?_⟩⟩⟩
    · omega
    · show Except.ok (MatchEntity.mk (savedEntity (w.saveMatch saved) saved).toMatchRow _) = _ ∧
        ∃ jobs, (w.saveMatch saved).enqueue .matchesQueue _ = _
      rw [hentity, hsave]
      exact ⟨rfl, _, rfl⟩
  exact hspec

/-- A cancellation by the creator goes through. -/
theorem cancel_after_awaiting {P : World → Prop} (hrow : w.row matchId = some r)
    (hcreator : r.createdBy = some userId) (hawait : r.status = .awaitingConfirmation)
    (hP : ∀ job, P (((w.deleteAllConfirmations matchId).saveMatch
      ⟨{ r with status := .playing }, some (w.roster matchId)⟩).enqueue .matchesQueue job)) :
    (ConfirmationService.cancel matchId userId).after system noFaults calls s w fun out =>
      P out.world := by
  simp only [ConfirmationService.cancel, after_bind, after_perform, perform_noFaults, exec,
    World.findById, after_require, after_throwIf, not_not, not_notCreator, hrow, Option.map_some,
    pure_eq, after_pure]
  refine ⟨fun hnone => ?_, fun m hm => ?_⟩
  · cases hnone
  obtain rfl := Option.some.inj hm
  have hother : r.status ≠ .confirmed := by simp [hawait]
  refine ⟨fun h => absurd h hother, fun _ => ⟨fun h => absurd hawait h, fun _ => ?_⟩⟩
  refine ⟨fun h => absurd hcreator h, fun _ => ?_⟩
  exact hP _

/-- A cancellation by the creator deletes the votes and puts the match back in play. -/
theorem cancelled_awaiting (hrow : w.row matchId = some r) (hcreator : r.createdBy = some userId)
    (hawait : r.status = .awaitingConfirmation) :
    ∃ jobs, (w.cancelled matchId userId).world =
      { w.deleteAllConfirmations matchId with
        matchRows := w.matchRows.put { r with status := .playing, updatedAt := w.clock }
        matchesQueue := jobs } := by
  obtain rfl := id_of_row hrow
  let saved : MatchEntity := ⟨{ r with status := .playing }, some (w.roster r.id)⟩
  have hchanged : r ≠ saved.toMatchRow := by
    intro hsame
    have hstatus : r.status = .playing := congrArg MatchRow.status hsame
    rw [hawait] at hstatus
    cases hstatus
  have hdeleted : (w.deleteAllConfirmations r.id).row saved.id = some r := hrow
  have hsave := saveMatch_of_ne hdeleted rfl hchanged
  let P : World → Prop := fun w' => ∃ jobs, w' =
    { w.deleteAllConfirmations r.id with
      matchRows := w.matchRows.put { r with status := .playing, updatedAt := w.clock }
      matchesQueue := jobs }
  have hspec : (ConfirmationService.cancel r.id userId).after system noFaults [] {} w fun out =>
      P out.world := by
    refine cancel_after_awaiting hrow hcreator hawait fun job => ?_
    show ∃ jobs, ((w.deleteAllConfirmations r.id).saveMatch saved).enqueue .matchesQueue job = _
    rw [hsave]
    exact ⟨_, rfl⟩
  exact hspec

/-! ## The erased round -/

/-- Two worlds differ in the jobs of `matchesQueue` at most. -/
def UpToJobs (w w' : World) : Prop := w' = { w with matchesQueue := w'.matchesQueue }

theorem UpToJobs.agreeOn (h : UpToJobs w w') (id : MatchId) : AgreeOn id w w' := by
  rw [h]
  exact ⟨rfl, rfl, rfl, rfl⟩

/-- The world after a submission and attempts to confirm it. -/
def World.confirming (w : World) (matchId : MatchId) (creator : UserId) (dto : SubmitResultDto)
    (attempts : List Attempt) : World :=
  (w.submitted matchId creator dto).world.attempts matchId attempts

/-- The world after a submission, attempts to confirm it, and its cancellation. -/
def World.roundCancelled (w : World) (matchId : MatchId) (creator : UserId) (dto : SubmitResultDto)
    (attempts : List Attempt) : World :=
  ((w.confirming matchId creator dto attempts).cancelled matchId creator).world

/-- Attempts go alike in worlds that no match tells apart. -/
theorem attempts_agree (h : ∀ id, AgreeOn id w w') (later : List Attempt) :
    w.answers matchId later = w'.answers matchId later ∧
      ∀ id, (w.attempts matchId later).matchView id = (w'.attempts matchId later).matchView id := by
  induction later generalizing w w' with
  | nil => exact ⟨rfl, fun id => (h id).view.symm⟩
  | cons attempt rest ih =>
      cases attempt with
      | tick elapsed =>
          have hclock : w'.clock = w.clock := (h matchId).clock
          refine ih fun id => ?_
          rw [hclock]
          exact ⟨(h id).view, (h id).users, rfl, (h id).auditRows⟩
      | confirm userId fails =>
          have hown : ExceptRel (fun a b => b = a) (w.confirmed matchId userId fails).result
              (w'.confirmed matchId userId fails).result ∧
                (w.confirmed matchId userId fails).calls = (w'.confirmed matchId userId fails).calls ∧
                  AgreeOn matchId (w.confirmed matchId userId fails).world
                    (w'.confirmed matchId userId fails).world :=
            similar_agree confirm_scoped (h matchId)
          obtain ⟨hresult, hcalls, hworld⟩ := hown
          -- The call is about this match, so in both worlds it leaves the other matches.
          have hall : ∀ id, AgreeOn id (w.confirmed matchId userId fails).world
              (w'.confirmed matchId userId fails).world := by
            intro id
            by_cases hid : id = matchId
            · rw [hid]
              exact hworld
            · have hkept : ∀ w₁ : World, AgreeOn id w₁ (w₁.confirmed matchId userId fails).world :=
                fun w₁ => (similar_frame confirm_scoped hid w₁).1
              exact (hkept w).symm.trans ((h id).trans (hkept w'))
          obtain ⟨hanswers, hviews⟩ := ih hall
          refine ⟨?_, hviews⟩
          rw [World.answers, World.answers, hresult.eq, hcalls, hanswers]

/-- A submission to a world that differs from another one in the scores of the match and in jobs at
most. -/
theorem submitted_again (dto dto' : SubmitResultDto) {time : Date}
    (hrow : w.row matchId = some r) (hcreator : r.createdBy = some userId)
    (hplaying : r.status = .playing)
    (hfull : (w.roster matchId).length = matchCapacity r.matchType)
    (hscores : w' = { w.atTime time with
      matchRows := w.matchRows.put
        { r with scoreA := some dto.scoreA, scoreB := some dto.scoreB, updatedAt := time }
      matchesQueue := w'.matchesQueue }) :
    (w'.submitted matchId userId dto').result =
        ((w.atTime time).submitted matchId userId dto').result ∧
      UpToJobs ((w.atTime time).submitted matchId userId dto').world
        (w'.submitted matchId userId dto').world := by
  let scored : MatchRow :=
    { r with scoreA := some dto.scoreA, scoreB := some dto.scoreB, updatedAt := time }
  have hid : r.id = matchId := id_of_row hrow
  have hrow' : w'.row matchId = some scored := by
    rw [hscores, ← hid]
    exact Table.get_put_self w.matchRows scored
  have hroster : w'.roster matchId = w.roster matchId := by
    rw [hscores]
    rfl
  have htime : w'.clock = time := by
    rw [hscores]
    rfl
  have hdirect := submitted_playing (w := w.atTime time) dto' hrow hcreator hplaying hfull
  have hagain := submitted_playing (w := w') dto' hrow' hcreator hplaying (by rw [hroster, hfull])
  obtain ⟨hresult, jobs, hworld⟩ := hdirect
  obtain ⟨hresult', jobs', hworld'⟩ := hagain
  have hsubmitted : scored.submittedRow dto' w'.clock = r.submittedRow dto' time := by
    rw [htime]
    rfl
  rw [hsubmitted] at hresult' hworld'
  constructor
  · rw [hresult', hresult, hroster]
    rfl
  · have hrows : w'.matchRows.put (r.submittedRow dto' time) =
        w.matchRows.put (r.submittedRow dto' time) := by
      rw [hscores]
      exact Table.put_put w.matchRows rfl
    rw [UpToJobs, hworld', hworld, hrows, hscores]
    rfl

/-- Deleting the votes of a match without votes changes nothing. -/
theorem keep_confirmations (hvotes : w.votes matchId = []) :
    w.confirmations.keep (·.matchId ≠ matchId) = w.confirmations := by
  apply Table.keep_eq_self
  intro c hc
  by_contra hown
  have hmem : c ∈ w.votes matchId := mem_votes.mpr ⟨hc, by simpa using hown⟩
  rw [hvotes] at hmem
  cases hmem

/-- A round that is cancelled below the quorum leaves the world it started from, but for the scores
and `updated_at` of the match, the time and jobs. -/
theorem roundCancelled_eq {creator : UserId} (dto : SubmitResultDto) {attempts : List Attempt}
    (hrow : w.row matchId = some r) (hcreator : r.createdBy = some creator)
    (hplaying : r.status = .playing)
    (hfull : (w.roster matchId).length = matchCapacity r.matchType)
    (hvotes : w.votes matchId = [])
    (hbelow : ((w.confirming matchId creator dto attempts).votes matchId).length <
      calculateQuorum (w.roster matchId).length) :
    let cancelled := w.roundCancelled matchId creator dto attempts
    cancelled = { w.atTime cancelled.clock with
      matchRows := w.matchRows.put
        { r with scoreA := some dto.scoreA, scoreB := some dto.scoreB, updatedAt := cancelled.clock }
      matchesQueue := cancelled.matchesQueue } := by
  intro cancelled
  obtain ⟨-, jobs, hsubmitted⟩ := submitted_playing dto hrow hcreator hplaying hfull
  let voted := w.confirming matchId creator dto attempts
  have hround : voted.deleteAllConfirmations matchId =
      ((w.submitted matchId creator dto).world.deleteAllConfirmations matchId).atTime voted.clock := by
    refine attempts_below_quorum attempts ?_
    rw [hsubmitted]
    rw [World.confirming, hsubmitted] at hbelow
    exact hbelow
  rw [hsubmitted] at hround
  have hrows : voted.matchRows = w.matchRows.put (r.submittedRow dto w.clock) := by
    have hall := congrArg World.matchRows hround
    exact hall
  have hvoted : voted.row matchId = some (r.submittedRow dto w.clock) := by
    rw [World.row, hrows, ← id_of_row hrow]
    exact Table.get_put_self w.matchRows (r.submittedRow dto w.clock)
  obtain ⟨jobs', hcancelled⟩ := cancelled_awaiting hvoted hcreator rfl
  have hclock : cancelled.clock = voted.clock := by
    show (voted.cancelled matchId creator).world.clock = _
    rw [hcancelled]
    rfl
  have hqueue : cancelled.matchesQueue = jobs' := by
    show (voted.cancelled matchId creator).world.matchesQueue = _
    rw [hcancelled]
  have hscored : { r.submittedRow dto w.clock with
      status := .playing, updatedAt := voted.clock } =
        { r with scoreA := some dto.scoreA, scoreB := some dto.scoreB, updatedAt := voted.clock } := by
    rw [← hplaying]
    rfl
  have hkey : (r.submittedRow dto w.clock).id =
      { r.submittedRow dto w.clock with status := .playing, updatedAt := voted.clock }.id := rfl
  rw [hclock, hqueue, ← hscored]
  refine hcancelled.trans ?_
  rw [hround, hrows, Table.put_put _ hkey]
  simp only [World.deleteAllConfirmations, World.atTime, keep_confirmations hvotes]

/-- A submitted result of a full match in play whose votes stay below the quorum, cancelled: the
world is the one before but for the scores and `updated_at` of the match, the time and jobs. A second
submission answers as the first one would have and leaves the same world up to jobs, and attempts to
confirm it go alike. -/
theorem cancel_erases_confirmation (users : Table UserEntity.id) (inputs : List Input) (w : World)
    (hreached : (World.withUsers users).run inputs = w) (matchId : MatchId) (r : MatchRow)
    (creator : UserId) (dto dto' : SubmitResultDto) (attempts later : List Attempt)
    (hrow : w.row matchId = some r) (hcreator : r.createdBy = some creator)
    (hplaying : r.status = .playing)
    (hfull : (w.roster matchId).length = matchCapacity r.matchType)
    (hbelow : ((w.confirming matchId creator dto attempts).votes matchId).length <
      calculateQuorum (w.roster matchId).length) :
    let cancelled := w.roundCancelled matchId creator dto attempts
    let direct := (w.atTime cancelled.clock).submitted matchId creator dto'
    let again := cancelled.submitted matchId creator dto'
    cancelled = { w with
      matchRows := w.matchRows.put { r with
        scoreA := some dto.scoreA
        scoreB := some dto.scoreB
        updatedAt := cancelled.clock }
      matchesQueue := cancelled.matchesQueue
      clock := cancelled.clock } ∧
    again.result = direct.result ∧ UpToJobs direct.world again.world ∧
      direct.world.answers matchId later = again.world.answers matchId later ∧
      ∀ id, (direct.world.attempts matchId later).matchView id =
        (again.world.attempts matchId later).matchView id := by
  -- A match in play has no votes, so the cancellation deletes those of the round only.
  have hvotes : w.votes matchId = [] := by
    rw [← hreached]
    rw [← hreached] at hrow
    exact (World.run_wellKept users inputs matchId r hrow).no_votes (.inr hplaying)
  have hworld := roundCancelled_eq dto hrow hcreator hplaying hfull hvotes hbelow
  obtain ⟨hresult, hjobs⟩ := submitted_again dto dto' hrow hcreator hplaying hfull hworld
  have hagree : ∀ id, AgreeOn id _ _ := fun id => hjobs.agreeOn id
  exact ⟨hworld, hresult, hjobs, attempts_agree hagree later⟩

/-- The match of `mario` and `rival` in play. -/
def duelFilled : World := (World.withUsers signedIn).run (duel.take 2)

/-- `mario` confirms; later `rival` tries to, and the quorum is not reached because a call fails. -/
def failedRound : List Attempt :=
  [.confirm 1 noFaults, .tick 5, .confirm 2 (failsAt (· = 4))]

/-- The result is submitted, confirmed once, cancelled and submitted again with other scores. -/
theorem cancel_erases_confirmation_duel :
    UpToJobs
      ((duelFilled.atTime 5).submitted 1 1 ⟨2, 2⟩).world
      ((duelFilled.roundCancelled 1 1 ⟨3, 1⟩ failedRound).submitted 1 1 ⟨2, 2⟩).world :=
  have herased := cancel_erases_confirmation signedIn (duel.take 2) duelFilled rfl 1
    ⟨1, some 1, .oneVsOne, .playing, none, none, 0, 0, none, none⟩ 1 ⟨3, 1⟩ ⟨2, 2⟩ failedRound []
    (by decide) rfl rfl (by decide) (by decide)
  herased.2.2.1

end FoosballApi.Matches
