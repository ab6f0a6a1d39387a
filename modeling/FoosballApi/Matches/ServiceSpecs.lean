import FoosballApi.Matches.Requests
import FoosballApi.Matches.StoreLemmas

/-!
# What each service method does when it runs alone

One lemma for each method of the three services: run alone and without failing calls, the method
either leaves the match tables as they were or has passed all its checks and leaves the world that
its statements describe. Later modules use these lemmas and do not look inside the methods.
-/

namespace FoosballApi.Matches

open Calls Events Prog World

variable {α : Type} {calls : List Call} {s : Session} {w : World} {matchId : MatchId}
  {userId : UserId}

/-- Without faults a call is carried out. -/
@[simp] theorem perform_noFaults (calls : List Call) (s : Session) (w : World) (op : Call) :
    system.perform (noFaults calls op) op s w = exec op s w := rfl

/-- A route for admins refuses everybody else. -/
theorem adminRoute_after {user : JwtPayload} {next : Unit → Api α}
    {Q : Outcome Call Failure Session World α → Prop}
    (hrefused : user.isAdmin = false → Q ⟨.error .forbiddenAdminRequired, calls, s, w⟩)
    (hnext : (next ()).after system noFaults calls s w Q) :
    (rolesGuard user >>= next).after system noFaults calls s w Q := by
  rw [after_bind, rolesGuard, after_throwIf]
  exact ⟨fun hother => hrefused (Bool.eq_false_of_not_eq_true hother), fun _ => hnext⟩

theorem rolesGuard_after {user : JwtPayload} {next : Unit → Api α}
    {Q : Outcome Call Failure Session World α → Prop}
    (hrefused : Q ⟨.error .forbiddenAdminRequired, calls, s, w⟩)
    (hnext : (next ()).after system noFaults calls s w Q) :
    (rolesGuard user >>= next).after system noFaults calls s w Q :=
  adminRoute_after (fun _ => hrefused) hnext

/-! ## `MatchService` -/

/-- `create` inserts a draft. -/
theorem create_after (dto : CreateMatchDto) :
    (MatchService.create userId dto).after system noFaults calls s w fun out =>
      out.world = w.insertMatch (w.newMatch userId (dto.matchType.getD .twoVsTwo) .draft) := by
  simp [MatchService.create, exec]

/-- `findById` returns the stored match with its players, or throws. -/
theorem findById_after {Q : Outcome Call Failure Session World MatchEntity → Prop}
    (hmissing : w.row matchId = none →
      Q ⟨.error (.matchNotFound matchId), .findById matchId :: calls, s, w⟩)
    (hfound : ∀ r, w.row matchId = some r →
      Q ⟨.ok ⟨r, some (w.roster matchId)⟩, .findById matchId :: calls, s, w⟩) :
    (MatchService.findById matchId).after system noFaults calls s w Q := by
  simp only [MatchService.findById, after_bind, after_perform, perform_noFaults, exec,
    World.findById, after_require]
  cases hrow : w.row matchId with
  | none => simpa using hmissing hrow
  | some r => simpa using hfound r hrow

/-- The common start of `update`, `addPlayers` and `submitResult`: a match that is found, editable
and the caller's own goes on, everything else ends in an exception. -/
theorem editable_after {notCreator locked : String} {next : MatchEntity → Api α}
    {Q : Outcome Call Failure Session World α → Prop}
    (hrefused : ∀ error, Q ⟨.error error, .findById matchId :: calls, s, w⟩)
    (hnext : ∀ r, w.row matchId = some r → r.createdBy = some userId → ¬ r.status.Locked →
      (next ⟨r, some (w.roster matchId)⟩).after system noFaults (.findById matchId :: calls) s w
        Q) :
    (do
      let m ← MatchService.findById matchId
      MatchService.checkEditable matchId m userId notCreator locked
      next m).after system noFaults calls s w Q := by
  rw [after_bind]
  refine findById_after (fun _ => hrefused _) fun r hrow => ?_
  simp only [MatchService.checkEditable, after_bind, after_throwIf, not_notCreator]
  exact ⟨fun _ => hrefused _, fun hcreator => ⟨fun _ => hrefused _, hnext r hrow hcreator⟩⟩

/-- `update` saves the scores of the request over an editable match. -/
theorem update_after (dto : UpdateMatchDto) :
    (MatchService.update matchId userId dto).after system noFaults calls s w fun out =>
      out.world = w ∨ ∃ r, w.row matchId = some r ∧ r.createdBy = some userId ∧
        ¬ r.status.Locked ∧
        out.world = w.saveMatch
          ⟨{ r with scoreA := dto.scoreA.getD r.scoreA, scoreB := dto.scoreB.getD r.scoreB },
            some (w.roster matchId)⟩ := by
  refine editable_after (fun _ => .inl rfl) fun r hrow hcreator hopen => ?_
  simp only [after_bind, after_perform, perform_noFaults, exec, after_pure, pure_eq]
  exact .inr ⟨r, hrow, hcreator, hopen, rfl⟩

/-- The slot loop throws for a player whose slot is taken, or no slot is. -/
theorem checkSlots_after {existing : List MatchPlayerEntity} {ps : List PlayerDto}
    {Q : Outcome Call Failure Session World Unit → Prop}
    (htaken : ∀ p ∈ ps, slotTaken existing p = true →
      Q ⟨.error (.slotConflict matchId p.team p.slot), calls, s, w⟩)
    (hfree : (∀ p ∈ ps, slotTaken existing p = false) → Q ⟨.ok (), calls, s, w⟩) :
    (MatchService.checkSlots matchId existing ps).after system noFaults calls s w Q := by
  induction ps with
  | nil => exact hfree fun p hp => nomatch hp
  | cons p ps ih =>
      simp only [MatchService.checkSlots, after_bind, after_throwIf, Bool.not_eq_true]
      refine ⟨htaken p List.mem_cons_self, fun hp => ih ?_ fun hrest => hfree fun q hq => ?_⟩
      · exact fun q hq => htaken q (List.mem_cons_of_mem _ hq)
      · rcases List.mem_cons.mp hq with rfl | hq
        · exact hp
        · exact hrest q hq

/-- The world `addPlayers` leaves when its players were saved into `saved`. -/
def playingWorld (w saved : World) (matchId : MatchId) (r : MatchRow) : World :=
  if r.status = .draft ∧ 0 < (saved.roster matchId).length then
    saved.saveMatch ⟨{ r with status := .playing }, some (w.roster matchId)⟩
  else saved

/-- Starting a draft registers nobody. -/
theorem players_playingWorld {saved : World} {r : MatchRow} {ps : List MatchPlayerEntity}
    (hrow : w.row matchId = some r) (hsave : w.savePlayers ps = some saved) :
    (playingWorld w saved matchId r).players = saved.players := by
  obtain rfl := id_of_row hrow
  have hsaved : saved.row r.id = some r := by
    rw [savePlayers_frame hsave]
    exact hrow
  unfold playingWorld
  split
  · exact players_saveMatch (m := ⟨{ r with status := .playing }, _⟩) hsaved
  · rfl

/-- The end of `addPlayers` saves the status of a draft that has players. -/
theorem startPlaying_after {r : MatchRow} {loaded allPlayers : List MatchPlayerEntity}
    {Q : Outcome Call Failure Session World MatchEntity → Prop}
    (hQ : ∀ m calls, Q ⟨.ok m, calls, s,
      if r.status = .draft ∧ 0 < allPlayers.length then
        w.saveMatch ⟨{ r with status := .playing }, some loaded⟩
      else w⟩) :
    (MatchService.startPlaying ⟨r, some loaded⟩ allPlayers).after system noFaults calls s w Q := by
  unfold MatchService.startPlaying
  split
  · next hstart =>
      simpa only [after_bind, after_perform, perform_noFaults, exec, pure_eq, after_pure,
        if_pos hstart] using hQ _ _
  · next hstart =>
      simpa only [pure_eq, after_pure, if_neg hstart] using hQ _ _

/-- `addPlayers` saves the players of the request into an editable match with room for them, and
starts a draft. -/
theorem addPlayers_after (dto : AddPlayersDto) :
    (MatchService.addPlayers matchId userId dto).after system noFaults calls s w fun out =>
      out.world = w ∨ ∃ r saved, w.row matchId = some r ∧ r.createdBy = some userId ∧
        ¬ r.status.Locked ∧
        (w.roster matchId).length + dto.players.length ≤ matchCapacity r.matchType ∧
        (∀ p ∈ dto.players, slotTaken (w.roster matchId) p = false) ∧
        w.savePlayers (dto.players.map (·.toEntity matchId)) = some saved ∧
        out.world = playingWorld w saved matchId r := by
  refine editable_after (fun _ => .inl rfl) fun r hrow hcreator hopen => ?_
  simp only [after_bind, after_perform, perform_noFaults, exec, after_throwIf, Nat.not_lt]
  refine ⟨fun _ => .inl trivial, fun hsize => ?_⟩
  refine checkSlots_after (fun _ _ _ => .inl rfl) fun hfree => ?_
  cases hsave : w.savePlayers (dto.players.map (·.toEntity matchId)) with
  | none => exact .inl rfl
  | some saved =>
      dsimp only
      refine startPlaying_after fun m calls => ?_
      simp only [pure_eq, after_pure]
      exact .inr ⟨r, saved, hrow, hcreator, hopen, hsize, hfree, rfl, rfl⟩

/-- `submitResult` saves the scores and the new status of an editable match that is full, and
announces it. -/
theorem submitResult_after (dto : SubmitResultDto) :
    (MatchService.submitResult matchId userId dto).after system noFaults calls s w fun out =>
      out.world = w ∨ ∃ r job, w.row matchId = some r ∧ r.createdBy = some userId ∧
        ¬ r.status.Locked ∧ matchCapacity r.matchType ≤ (w.roster matchId).length ∧
        out.world = (w.saveMatch
          ⟨{ r with
            scoreA := some dto.scoreA
            scoreB := some dto.scoreB
            status := .awaitingConfirmation }, some (w.roster matchId)⟩).enqueue
          .matchesQueue job := by
  refine editable_after (fun _ => .inl rfl) fun r hrow hcreator hopen => ?_
  simp only [after_bind, after_perform, perform_noFaults, exec, after_throwIf, Nat.not_lt, pure_eq,
    after_pure]
  exact ⟨fun _ => .inl trivial, fun hfull => .inr ⟨r, _, hrow, hcreator, hopen, hfull, rfl⟩⟩

/-- `delete` deletes a stored match for an admin. -/
theorem delete_after (isAdmin : Bool) :
    (MatchService.delete matchId userId isAdmin).after system noFaults calls s w fun out =>
      (out.world = w ∧ (isAdmin = true → w.row matchId = none)) ∨
        ∃ r, isAdmin = true ∧ w.row matchId = some r ∧ out.world = w.deleteMatch matchId := by
  simp only [MatchService.delete, after_bind, after_throwIf, after_perform, perform_noFaults, exec,
    World.findById, after_require, Bool.not_eq_true, Bool.not_eq_false, Option.map_eq_none_iff]
  refine ⟨fun hother => .inl ⟨trivial, fun hadmin => ?_⟩, fun hadmin =>
    ⟨fun hnone => .inl ⟨trivial, fun _ => hnone⟩, fun m hm => ?_⟩⟩
  · cases hother.symm.trans hadmin
  · obtain ⟨r, hrow, _⟩ := Option.map_eq_some_iff.mp hm
    exact .inr ⟨r, hadmin, hrow, trivial⟩

/-! ## `ConfirmationService` -/

/-- The vote `confirm` writes: none when the caller has voted. -/
def World.voteWrites (w : World) (matchId : MatchId) (userId : UserId) : List Write :=
  match w.confirmations.get (matchId, userId) with
  | some _ => []
  | none => [.putConfirmation (w.newConfirmation matchId userId)]

/-- The world with the caller's vote. -/
def World.votedWorld (w : World) (matchId : MatchId) (userId : UserId) : World :=
  (w.voteWrites matchId userId).foldl Write.commit w

/-- The caller's vote changes the votes only. -/
theorem votedWorld_eq (w : World) (matchId : MatchId) (userId : UserId) :
    w.votedWorld matchId userId =
      { w with confirmations := (w.votedWorld matchId userId).confirmations } := by
  unfold votedWorld voteWrites
  cases w.confirmations.get (matchId, userId) <;> rfl

@[simp] theorem row_votedWorld (w : World) (matchId : MatchId) (userId : UserId)
    (other : MatchId) : (w.votedWorld matchId userId).row other = w.row other := by
  rw [votedWorld_eq]
  rfl

@[simp] theorem roster_votedWorld (w : World) (matchId : MatchId) (userId : UserId)
    (other : MatchId) : (w.votedWorld matchId userId).roster other = w.roster other := by
  rw [votedWorld_eq]
  rfl

@[simp] theorem auditLogs_votedWorld (w : World) (matchId : MatchId) (userId : UserId) :
    (w.votedWorld matchId userId).auditLogs = w.auditLogs := by
  rw [votedWorld_eq]

/-- The row `confirm` saves at the quorum. -/
def MatchRow.confirmedAtTime (r : MatchRow) (confirmedAt : Date) : MatchRow :=
  { r with status := .confirmed, confirmedAt := some confirmedAt, lockedAt := some confirmedAt }

/-- The `match.confirmed` job of a match that was confirmed at a time. -/
def confirmedJob (matchId : MatchId) (r : MatchRow) (confirmedAt : Date) : EventEnvelope where
  eventType := .matchConfirmed
  version := 1
  occurredAt := confirmedAt
  payload := .matchConfirmed matchId (winnerTeam (r.scoreA.getD 0) (r.scoreB.getD 0))
    (r.scoreA.getD 0) (r.scoreB.getD 0) confirmedAt

/-- The job that invalidates the leaderboard. -/
def invalidateJob (reason : InvalidateReason) (occurredAt : Date) : EventEnvelope where
  eventType := .leaderboardInvalidate
  version := 1
  occurredAt := occurredAt
  payload := .leaderboardInvalidate reason [.week, .month, .year, .total]

/-- The world in which the caller's vote has confirmed a match. -/
def World.confirmedWorld (w : World) (matchId : MatchId) (userId : UserId) (r : MatchRow) : World :=
  (((w.votedWorld matchId userId).saveMatch ⟨r.confirmedAtTime w.clock, none⟩).enqueue
    .matchesQueue (confirmedJob matchId r w.clock)).enqueue
      .leaderboardQueue (invalidateJob .matchConfirmed w.clock)

/-- A match awaits the confirmation of one of its players. -/
structure World.Confirmable (w : World) (matchId : MatchId) (userId : UserId) (r : MatchRow) :
    Prop where
  row : w.row matchId = some r
  awaiting : r.status = .awaitingConfirmation
  player : IsPlayer ((w.roster matchId).map (·.userId)) userId

/-- The votes reach the quorum with the caller's vote. -/
def World.QuorumReached (w : World) (matchId : MatchId) (userId : UserId) : Prop :=
  calculateQuorum (w.roster matchId).length ≤ ((w.votedWorld matchId userId).votes matchId).length

@[simp] theorem World.clock_enqueue (w : World) (queue : Queue) (job : EventEnvelope) :
    (w.enqueue queue job).clock = w.clock := by
  cases queue <;> rfl

/-- The writes of a transaction take no time. -/
theorem clock_commit (changes : List Write) (w : World) :
    (changes.foldl Write.commit w).clock = w.clock := by
  induction changes generalizing w with
  | nil => rfl
  | cons change changes ih =>
      rw [List.foldl_cons, ih]
      cases change with
      | saveMatch m => exact clock_saveMatch m
      | putConfirmation | appendAuditLog => rfl

/-- The `if (!existing)` block leaves the caller's vote in the transaction. -/
theorem saveVote_after {locked : Bool} {Q : Outcome Call Failure Session World Unit → Prop}
    (hQ : ∀ calls, Q ⟨.ok (), calls, ⟨some (w.voteWrites matchId userId), locked⟩, w⟩) :
    (ConfirmationService.saveVote matchId userId (w.confirmations.get (matchId, userId))).after
      system noFaults calls ⟨some [], locked⟩ w Q := by
  unfold ConfirmationService.saveVote
  cases hget : w.confirmations.get (matchId, userId) with
  | some c => simpa [World.voteWrites, hget] using hQ calls
  | none => simpa [World.voteWrites, hget, exec, Session.write] using hQ _

/-- The end of the locked section commits the writes so far; at the quorum it also confirms the
match and publishes it. -/
theorem settle_after {players : List MatchPlayerEntity} {r : MatchRow}
    {votes : List MatchConfirmationEntity} {changes : List Write} {locked : Bool}
    {Q : Outcome Call Failure Session World ConfirmationStatusResult → Prop}
    (hbelow : votes.length < calculateQuorum players.length →
      ∀ status calls, Q ⟨.ok status, calls, {}, changes.foldl Write.commit w⟩)
    (hquorum : calculateQuorum players.length ≤ votes.length →
      ∀ status calls, Q ⟨.ok status, calls, {},
        (((changes.foldl Write.commit w).saveMatch ⟨r.confirmedAtTime w.clock, none⟩).enqueue
          .matchesQueue (confirmedJob matchId r w.clock)).enqueue
            .leaderboardQueue (invalidateJob .matchConfirmed w.clock)⟩) :
    (ConfirmationService.settle matchId players ⟨r, none⟩ votes).after system noFaults calls
      ⟨some changes, locked⟩ w Q := by
  unfold ConfirmationService.settle
  split
  · next hreached =>
      simp only [ConfirmationService.confirmMatch, after_bind, after_perform, perform_noFaults,
        exec, Session.write, Session.view_some, List.foldl_append, List.foldl_cons, List.foldl_nil,
        Write.commit, pure_eq, after_pure, clock_saveMatch, clock_commit, World.clock_enqueue]
      exact hquorum hreached _ _
  · next hreached =>
      simp only [after_bind, after_perform, perform_noFaults, exec, Session.view_some, pure_eq,
        after_pure]
      exact hbelow (Nat.lt_of_not_le hreached) _ _

/-- `confirm` writes the caller's vote on a match awaiting confirmation and, at the quorum,
confirms the match and publishes it. -/
theorem confirm_after :
    (ConfirmationService.confirm matchId userId).after system noFaults calls {} w fun out =>
      (out.world = w ∧ ∀ r, ¬ w.Confirmable matchId userId r) ∨
      ∃ r, w.Confirmable matchId userId r ∧
        (¬ w.QuorumReached matchId userId ∧ out.world = w.votedWorld matchId userId ∨
          w.QuorumReached matchId userId ∧ out.world = w.confirmedWorld matchId userId r) := by
  simp only [ConfirmationService.confirm, after_bind, after_perform, perform_noFaults, exec,
    World.findById, after_require, after_throwIf, not_not]
  refine ⟨fun hnone => .inl ⟨trivial, fun r h => ?_⟩, fun m hm => ?_⟩
  · rw [h.row] at hnone
    cases hnone
  obtain ⟨r, hrow, rfl⟩ := Option.map_eq_some_iff.mp hm
  have hsame : ∀ r', w.Confirmable matchId userId r' → r' = r := fun r' h =>
    Option.some.inj (h.row.symm.trans hrow)
  refine ⟨fun hother => .inl ⟨trivial, fun r' h => hother (hsame r' h ▸ h.awaiting)⟩, fun hawait =>
    ⟨fun hother => .inl ⟨trivial, fun r' h => hother h.player⟩, fun hplayer => ?_⟩⟩
  have hawait : r.status = .awaitingConfirmation := hawait
  have hconfirmable : w.Confirmable matchId userId r := ⟨hrow, hawait, hplayer⟩
  simp only [catchFinally, ConfirmationService.lockedSection, ConfirmationService.castVote,
    after_bind, after_attempt, after_perform, perform_noFaults, exec, Session.view_some,
    List.foldl_nil, hrow, Option.map_some, Option.filter_some, hawait, decide_true, if_true]
  refine saveVote_after fun calls => ?_
  refine settle_after (fun hbelow status calls => ?_) fun hquorum status calls => ?_
  · simp only [after_pure, after_resume]
    exact .inr ⟨r, hconfirmable, .inl ⟨Nat.not_le_of_lt hbelow, rfl⟩⟩
  · simp only [after_pure, after_resume]
    exact .inr ⟨r, hconfirmable, .inr ⟨hquorum, rfl⟩⟩

/-- `cancel` deletes the votes of a match awaiting confirmation and sets it back to playing. -/
theorem cancel_after :
    (ConfirmationService.cancel matchId userId).after system noFaults calls s w fun out =>
      out.world = w ∨ ∃ r job, w.row matchId = some r ∧ r.createdBy = some userId ∧
        r.status = .awaitingConfirmation ∧
        out.world = ((w.deleteAllConfirmations matchId).saveMatch
          ⟨{ r with status := .playing }, some (w.roster matchId)⟩).enqueue .matchesQueue job := by
  simp only [ConfirmationService.cancel, after_bind, after_perform, perform_noFaults, exec,
    World.findById, after_require, after_throwIf, not_not, not_notCreator, pure_eq, after_pure]
  refine ⟨fun _ => .inl trivial, fun m hm => ⟨fun _ => .inl trivial, fun _ =>
    ⟨fun _ => .inl trivial, fun hawait => ⟨fun _ => .inl trivial, fun hcreator => ?_⟩⟩⟩⟩
  obtain ⟨r, hrow, rfl⟩ := Option.map_eq_some_iff.mp hm
  exact .inr ⟨r, _, hrow, hcreator, hawait, rfl⟩

/-- `getStatus` only reads. -/
theorem getStatus_after :
    (ConfirmationService.getStatus matchId).after system noFaults calls s w fun out =>
      out.world = w := by
  simp [ConfirmationService.getStatus, after_require, exec]

/-! ## `AdminOverrideService` -/

/-- The job that hands the audit row of an override to the worker. -/
def auditJob (data : AuditLogData) (occurredAt : Date) : EventEnvelope where
  eventType := .auditLogWrite
  version := 1
  occurredAt := occurredAt
  payload := .auditLog data

/-- The world in which an admin has overridden the result of `r`. -/
def World.overriddenWorld (w : World) (matchId : MatchId) (r : MatchRow) (actorId : UserId)
    (dto : AdminOverrideResultDto) : World :=
  let m : MatchEntity := ⟨r, some (w.roster matchId)⟩
  let data := AdminOverrideService.overrideAuditData m matchId actorId dto
  (((w.takeAuditId.enqueue .auditQueue (auditJob data w.clock)).enqueue
    .leaderboardQueue (invalidateJob .adminResultOverride w.clock)).saveMatch
      { m with scoreA := some dto.scoreA, scoreB := some dto.scoreB }).appendAuditLog
        (w.newAuditLog data)

/-- `overrideResult` publishes two events and writes the scores of a confirmed match and an audit
row. -/
theorem overrideResult_after (isAdmin : Bool) (dto : AdminOverrideResultDto) :
    (AdminOverrideService.overrideResult matchId userId isAdmin dto).after system noFaults calls {}
      w fun out =>
        (out.world = w ∧
          (isAdmin = true → ∀ r, w.row matchId = some r → r.status ≠ .confirmed)) ∨
        ∃ r, isAdmin = true ∧ w.row matchId = some r ∧ r.status = .confirmed ∧
          out.world = w.overriddenWorld matchId r userId dto := by
  simp only [AdminOverrideService.overrideResult, AdminOverrideService.overrideTransaction,
    catchFinally, after_bind, after_attempt, after_perform, perform_noFaults, exec,
    World.findById, after_require, after_throwIf, not_not, Session.write, Session.view_some,
    List.foldl_append, List.foldl_cons, List.foldl_nil, List.nil_append, Write.commit,
    pure_eq, after_pure, after_resume, Bool.not_eq_true, Bool.not_eq_false]
  refine ⟨fun hother => .inl ⟨trivial, fun hadmin => ?_⟩, fun hadmin =>
    ⟨fun hnone => .inl ⟨trivial, fun _ r hrow => ?_⟩, fun m hm => ?_⟩⟩
  · cases hother.symm.trans hadmin
  · rw [hrow] at hnone
    cases hnone
  obtain ⟨r, hrow, rfl⟩ := Option.map_eq_some_iff.mp hm
  refine ⟨fun hother => .inl ⟨trivial, fun _ r' hrow' => ?_⟩, fun hconfirmed => ?_⟩
  · rwa [Option.some.inj (hrow'.symm.trans hrow)]
  · exact .inr ⟨r, hadmin, hrow, hconfirmed, rfl⟩

/-- The world after `deleteMatch` has recorded the deletion of `r`, when that is due. -/
def World.recordedWorld (w : World) (matchId : MatchId) (r : MatchRow) (actorId : UserId) :
    World :=
  if r.status = .confirmed then
    w.takeAuditId.appendAuditLog
      (w.newAuditLog (AdminOverrideService.deleteAuditData ⟨r, none⟩ matchId actorId))
  else w

/-- Recording a deletion concerns the audit log only. -/
theorem recordedWorld_frame (w : World) (matchId : MatchId) (r : MatchRow) (actorId : UserId) :
    SameTables w (w.recordedWorld matchId r actorId) ∧
      (w.recordedWorld matchId r actorId).nextMatchId = w.nextMatchId ∧
        (w.recordedWorld matchId r actorId).leaderboardQueue = w.leaderboardQueue := by
  unfold recordedWorld
  split
  · exact ⟨(sameTables_takeAuditId w).trans (sameTables_appendAuditLog _ _), rfl, rfl⟩
  · exact ⟨.refl w, rfl, rfl⟩

/-- `deleteMatch` deletes a stored match for an admin, after recording it when it is confirmed. -/
theorem deleteMatch_after (isAdmin : Bool) :
    (AdminOverrideService.deleteMatch matchId userId isAdmin).after system noFaults calls s w
      fun out => (out.world = w ∧ (isAdmin = true → w.row matchId = none)) ∨
        ∃ r, isAdmin = true ∧ w.row matchId = some r ∧
          out.world = (w.recordedWorld matchId r userId).deleteMatch matchId ∧
          (r.status = .confirmed → out.calls = .delete matchId ::
            .saveAuditLog (AdminOverrideService.deleteAuditData ⟨r, none⟩ matchId userId) ::
              .findById matchId :: calls) := by
  simp only [AdminOverrideService.deleteMatch, after_bind, after_perform, perform_noFaults, exec,
    World.findById, after_require, after_throwIf, Bool.not_eq_true, Bool.not_eq_false,
    Option.map_eq_none_iff]
  refine ⟨fun hother => .inl ⟨trivial, fun hadmin => ?_⟩, fun hadmin =>
    ⟨fun hnone => .inl ⟨trivial, fun _ => hnone⟩, fun m hm => ?_⟩⟩
  · cases hother.symm.trans hadmin
  obtain ⟨r, hrow, rfl⟩ := Option.map_eq_some_iff.mp hm
  simp only [AdminOverrideService.recordDelete]
  split
  · next hconfirmed =>
      simp only [after_bind, after_perform, perform_noFaults, exec, pure_eq, after_pure]
      refine .inr ⟨r, hadmin, hrow, ?_, fun _ => rfl⟩
      rw [recordedWorld, if_pos hconfirmed]
      rfl
  · next hother =>
      simp only [pure_eq, after_pure]
      refine .inr ⟨r, hadmin, hrow, ?_, fun h => absurd h hother⟩
      rw [recordedWorld, if_neg hother]

/-- `getAuditLog` only reads. -/
theorem getAuditLog_after (isAdmin : Bool) :
    (AdminOverrideService.getAuditLog matchId isAdmin).after system noFaults calls s w fun out =>
      out.world = w := by
  simp [AdminOverrideService.getAuditLog, after_require, exec]

/-! ## Every request -/

/-- What is known when a request leaves the world as it was. -/
def Request.Refused (request : Request) (w : World) : Prop :=
  match request.route with
  | .confirmResult matchId => ∀ r, ¬ w.Confirmable matchId request.user.sub r
  | .deleteMatch matchId | .adminDeleteMatch matchId =>
      request.user.isAdmin = true → w.row matchId = none
  | .adminOverrideResult matchId _ =>
      request.user.isAdmin = true → ∀ r, w.row matchId = some r → r.status ≠ .confirmed
  | _ => True

/-- What a request leaves of a world: the world itself, or the one its statements describe once all
its checks have passed. -/
inductive Request.Leaves (w : World) : Request → World → Prop where
  | same {request : Request} (refused : request.Refused w) : Leaves w request w
  | create {user dto} : Leaves w ⟨user, .createMatch dto⟩
      (w.insertMatch (w.newMatch user.sub (dto.matchType.getD .twoVsTwo) .draft))
  | update {user matchId} {dto : UpdateMatchDto} {r : MatchRow} (row : w.row matchId = some r)
      (creator : r.createdBy = some user.sub) (editable : ¬ r.status.Locked) :
      Leaves w ⟨user, .updateMatch matchId dto⟩ (w.saveMatch
        ⟨{ r with scoreA := dto.scoreA.getD r.scoreA, scoreB := dto.scoreB.getD r.scoreB },
          some (w.roster matchId)⟩)
  | addPlayers {user matchId} {dto : AddPlayersDto} {r : MatchRow} {saved : World}
      (row : w.row matchId = some r) (creator : r.createdBy = some user.sub)
      (editable : ¬ r.status.Locked)
      (room : (w.roster matchId).length + dto.players.length ≤ matchCapacity r.matchType)
      (free : ∀ p ∈ dto.players, slotTaken (w.roster matchId) p = false)
      (save : w.savePlayers (dto.players.map (·.toEntity matchId)) = some saved) :
      Leaves w ⟨user, .addPlayers matchId dto⟩ (playingWorld w saved matchId r)
  | submitResult {user matchId} {dto : SubmitResultDto} {r : MatchRow} {job : EventEnvelope}
      (row : w.row matchId = some r) (creator : r.createdBy = some user.sub)
      (editable : ¬ r.status.Locked)
      (full : matchCapacity r.matchType ≤ (w.roster matchId).length) :
      Leaves w ⟨user, .submitResult matchId dto⟩ ((w.saveMatch
        ⟨{ r with
            scoreA := some dto.scoreA
            scoreB := some dto.scoreB
            status := .awaitingConfirmation }, some (w.roster matchId)⟩).enqueue
          .matchesQueue job)
  | vote {user matchId r} (confirmable : w.Confirmable matchId user.sub r)
      (below : ¬ w.QuorumReached matchId user.sub) :
      Leaves w ⟨user, .confirmResult matchId⟩ (w.votedWorld matchId user.sub)
  | confirm {user matchId r} (confirmable : w.Confirmable matchId user.sub r)
      (quorum : w.QuorumReached matchId user.sub) :
      Leaves w ⟨user, .confirmResult matchId⟩ (w.confirmedWorld matchId user.sub r)
  | cancel {user matchId} {r : MatchRow} {job : EventEnvelope} (row : w.row matchId = some r)
      (creator : r.createdBy = some user.sub) (awaiting : r.status = .awaitingConfirmation) :
      Leaves w ⟨user, .cancelConfirmation matchId⟩ (((w.deleteAllConfirmations matchId).saveMatch
        ⟨{ r with status := .playing }, some (w.roster matchId)⟩).enqueue .matchesQueue job)
  | overrideResult {user matchId dto} {r : MatchRow} (admin : user.isAdmin = true)
      (row : w.row matchId = some r) (confirmed : r.status = .confirmed) :
      Leaves w ⟨user, .adminOverrideResult matchId dto⟩ (w.overriddenWorld matchId r user.sub dto)
  | delete {user matchId} {r : MatchRow} (admin : user.isAdmin = true)
      (row : w.row matchId = some r) :
      Leaves w ⟨user, .deleteMatch matchId⟩ (w.deleteMatch matchId)
  | adminDelete {user matchId} {r : MatchRow} (admin : user.isAdmin = true)
      (row : w.row matchId = some r) :
      Leaves w ⟨user, .adminDeleteMatch matchId⟩
        ((w.recordedWorld matchId r user.sub).deleteMatch matchId)

theorem Request.Leaves.of_eq {request : Request} {w' : World} (hworld : w' = w)
    (hrefused : request.Refused w) : request.Leaves w w' := by
  rw [hworld]
  exact .same hrefused

/-- What a service leaves is what its handler leaves. -/
theorem handler_leaves {request : Request} {program : Api α} {f : α → Response}
    (h : program.after system noFaults [] {} w fun out => request.Leaves w out.world) :
    (program >>= fun value => Prog.pure (f value)).after system noFaults [] {} w fun out =>
      request.Leaves w out.world :=
  (after_map_world (P := request.Leaves w)).mpr h

/-- Every request leaves one of these worlds. -/
theorem Request.leaves (request : Request) (w : World) :
    request.Leaves w (request.outcome w).world := by
  obtain ⟨user, route⟩ := request
  have hspec : (Request.prog ⟨user, route⟩).after system noFaults [] {} w fun out =>
      Request.Leaves w ⟨user, route⟩ out.world := by
    have hother : ∀ {P : Prop}, user.isAdmin = false → user.isAdmin = true → P :=
      fun hother hadmin => by cases hother.symm.trans hadmin
    cases route with
    | createMatch dto =>
        refine handler_leaves (after_mono (create_after dto) fun out hout => ?_)
        rw [hout]
        exact .create
    | getMatch matchId =>
        exact handler_leaves (findById_after (fun _ => .same trivial) fun _ _ => .same trivial)
    | updateMatch matchId dto =>
        refine handler_leaves (after_mono (update_after dto) fun out hout => ?_)
        rcases hout with hout | ⟨r, hrow, hcreator, hopen, hout⟩
        · exact .of_eq hout trivial
        · exact hout ▸ .update hrow hcreator hopen
    | deleteMatch matchId =>
        refine adminRoute_after (fun hrole => .same (hother hrole)) (handler_leaves ?_)
        refine after_mono (delete_after user.isAdmin) fun out hout => ?_
        rcases hout with ⟨hout, hnone⟩ | ⟨r, hadmin, hrow, hout⟩
        · exact .of_eq hout hnone
        · exact hout ▸ .delete hadmin hrow
    | addPlayers matchId dto =>
        refine handler_leaves (after_mono (addPlayers_after dto) fun out hout => ?_)
        rcases hout with hout | ⟨r, saved, hrow, hcreator, hopen, hroom, hfree, hsave, hout⟩
        · exact .of_eq hout trivial
        · exact hout ▸ .addPlayers hrow hcreator hopen hroom hfree hsave
    | submitResult matchId dto =>
        refine handler_leaves (after_mono (submitResult_after dto) fun out hout => ?_)
        rcases hout with hout | ⟨r, job, hrow, hcreator, hopen, hfull, hout⟩
        · exact .of_eq hout trivial
        · exact hout ▸ .submitResult hrow hcreator hopen hfull
    | getConfirmationStatus matchId =>
        exact handler_leaves (after_mono getStatus_after fun out hout => .of_eq hout trivial)
    | confirmResult matchId =>
        refine handler_leaves (after_mono confirm_after fun out hout => ?_)
        rcases hout with ⟨hout, hnone⟩ | ⟨r, hr, ⟨hbelow, hout⟩ | ⟨hquorum, hout⟩⟩
        · exact .of_eq hout hnone
        · exact hout ▸ .vote hr hbelow
        · exact hout ▸ .confirm hr hquorum
    | cancelConfirmation matchId =>
        refine handler_leaves (after_mono cancel_after fun out hout => ?_)
        rcases hout with hout | ⟨r, job, hrow, hcreator, hawait, hout⟩
        · exact .of_eq hout trivial
        · exact hout ▸ .cancel hrow hcreator hawait
    | adminOverrideResult matchId dto =>
        refine adminRoute_after (fun hrole => .same (hother hrole)) (handler_leaves ?_)
        refine after_mono (overrideResult_after user.isAdmin dto) fun out hout => ?_
        rcases hout with ⟨hout, hnot⟩ | ⟨r, hadmin, hrow, hconfirmed, hout⟩
        · exact .of_eq hout hnot
        · exact hout ▸ .overrideResult hadmin hrow hconfirmed
    | adminDeleteMatch matchId =>
        refine adminRoute_after (fun hrole => .same (hother hrole)) (handler_leaves ?_)
        refine after_mono (deleteMatch_after user.isAdmin) fun out hout => ?_
        rcases hout with ⟨hout, hnone⟩ | ⟨r, hadmin, hrow, hout, -⟩
        · exact .of_eq hout hnone
        · exact hout ▸ .adminDelete hadmin hrow
    | getMatchAuditLog matchId =>
        refine rolesGuard_after (.same trivial) (handler_leaves ?_)
        exact after_mono (getAuditLog_after user.isAdmin) fun out hout => .of_eq hout trivial
  exact hspec

end FoosballApi.Matches
