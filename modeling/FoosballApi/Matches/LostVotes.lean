import FoosballApi.Matches.MatchSteps

/-!
# What a `confirm` that returns has done

Any number of `confirm`, `cancel` and delete requests on one match, in any order of their calls and
with any of them failing. `Steady` is what every such run keeps of the match. A `confirm` that
returns reports the votes of one moment; it has left the caller's vote, or found the match
confirmed, if and only if the match was awaiting confirmation or confirmed at its locked read, or
the vote was there already: the branch for any other status answers without a vote.
-/

namespace FoosballApi.Matches

open Calls Data Events Prog Trace World

variable {θ : Type} [DecidableEq θ]

/-- The requests that take part in the vote on a match or end it. -/
inductive Route.InVote (matchId : MatchId) : Route → Prop
  | confirm : Route.InVote matchId (.confirmResult matchId)
  | cancel : Route.InVote matchId (.cancelConfirmation matchId)
  | delete : Route.InVote matchId (.deleteMatch matchId)
  | adminDelete : Route.InVote matchId (.adminDeleteMatch matchId)

/-- A vote of a user is stored. -/
def World.HasVote (w : World) (matchId : MatchId) (userId : UserId) : Prop :=
  userId ∈ (w.votes matchId).map (·.userId)

instance (w : World) (matchId : MatchId) (userId : UserId) : Decidable (w.HasVote matchId userId) :=
  inferInstanceAs (Decidable (_ ∈ _))

/-- The world at the locked read of a call of `confirm`. -/
def lockedRead (i : θ) (matchId : MatchId) (h : History θ) : Option World :=
  ((h.madeBy i).find? (·.op = .findMatchForUpdate matchId)).map (·.world)

/-- The world when the locked section of a call of `confirm` has ended. -/
def sectionEnd (i : θ) (h : History θ) : Option World :=
  ((h.madeBy i).find? fun e => e.op = .commitTransaction ∨ e.op = .rollbackTransaction).map
    (·.world)

/-- A returned status gives the votes stored in a world, their number, and whether they reach the
quorum of the players stored in it. -/
structure World.DescribedBy (w : World) (matchId : MatchId) (status : ConfirmationStatusResult) :
    Prop where
  confirmations : status.confirmations = (w.votes matchId).map fun c => (c.userId, c.confirmedAt)
  confirmedCount : status.confirmedCount = status.confirmations.length
  quorumReached : status.quorumReached =
    decide (calculateQuorum (w.roster matchId).length ≤ (w.votes matchId).length)

/-- A vote in this world is not lost on a `confirm` that reads the match here: the match awaits
confirmation or is confirmed, or the vote is stored. -/
def World.TakesVote (w : World) (matchId : MatchId) (userId : UserId) : Prop :=
  w.status matchId = some .awaitingConfirmation ∨ w.status matchId = some .confirmed ∨
    w.HasVote matchId userId

/-- A call of `confirm` that returned `status` has not lost the vote, and describes the match as it
was right after one of its calls. -/
structure Answered (i : θ) (matchId : MatchId) (userId : UserId)
    (status : ConfirmationStatusResult) (h : History θ) : Prop where
  kept : ∃ read ∈ lockedRead i matchId h, ∃ ended ∈ sectionEnd i h,
    ended.HasVote matchId userId ∨ read.status matchId = some .confirmed
  described : ∃ event ∈ h.madeBy i, event.world.DescribedBy matchId status

/-! ## The match in such a run -/

/-- What becomes of a match: it keeps its number of players, or it is gone with its players and
votes; one that was not stored at the start never is. -/
inductive Steady (matchId : MatchId) (w₀ w : World) : Prop
  | kept (first : w₀.row matchId ≠ none) (stored : w.row matchId ≠ none)
      (players : (w.roster matchId).length = (w₀.roster matchId).length)
  | gone (first : w₀.row matchId ≠ none) (absent : w.matchView matchId = .absent)
  | never (first : w₀.row matchId = none) (missing : w.row matchId = none)

variable {matchId : MatchId} {w₀ w w' : World}

theorem Steady.start : Steady matchId w₀ w₀ := by
  by_cases hrow : w₀.row matchId = none
  · exact .never hrow hrow
  · exact .kept hrow hrow rfl

/-- Where the match is stored, it is with as many players as at the start. -/
theorem Steady.of_stored (h : Steady matchId w₀ w) (hrow : w.row matchId ≠ none) :
    w₀.row matchId ≠ none ∧ (w.roster matchId).length = (w₀.roster matchId).length := by
  cases h with
  | kept first stored players => exact ⟨first, players⟩
  | gone first absent => exact absurd (congrArg MatchView.row absent) hrow
  | never first missing => exact absurd missing hrow

/-- A call that keeps the row and the players, or changes the row of a stored match. -/
theorem Steady.of_same (h : Steady matchId w₀ w)
    (hrow : w'.row matchId = none ↔ w.row matchId = none)
    (hroster : w'.roster matchId = w.roster matchId)
    (hvotes : w.row matchId = none → w.votes matchId = [] → w'.votes matchId = []) :
    Steady matchId w₀ w' := by
  cases h with
  | kept first stored players => exact .kept first (mt hrow.mp stored) (hroster ▸ players)
  | gone first absent =>
      have hnone : w.row matchId = none := congrArg MatchView.row absent
      refine .gone first (MatchView.ext (hrow.mpr hnone) ?_ ?_)
      · exact hroster.trans (congrArg MatchView.roster absent)
      · exact hvotes hnone (congrArg MatchView.votes absent)
  | never first missing => exact .never first (hrow.mpr missing)

/-- A match that was deleted and is saved again has the players it was loaded with. -/
theorem roster_saveMatch_of_absent {m : MatchEntity} {w₁ : World}
    (habsent : w.matchView m.id = .absent) (hloaded : m.players = some (w₁.roster m.id)) :
    (w.saveMatch m).roster m.id = w₁.roster m.id := by
  have hrow : w.row m.id = none := congrArg MatchView.row habsent
  have hroster : w.roster m.id = [] := congrArg MatchView.roster habsent
  have hown : ∀ p ∈ w₁.roster m.id, p.matchId = m.id := fun p hp => (mem_roster.mp hp).2
  have hnew : ∀ p ∈ w₁.roster m.id, w.players.get p.key = none := by
    intro p hp
    refine Table.get_eq_none.mpr fun q hq hkey => ?_
    have hmem : q ∈ w.roster m.id :=
      mem_roster.mpr ⟨hq, (congrArg Prod.fst hkey).trans (hown p hp)⟩
    rw [hroster] at hmem
    cases hmem
  have hkeys : ((w₁.roster m.id).map MatchPlayerEntity.key).Nodup := Table.sel_keys_nodup _ _
  show ((w.saveMatch m).players.rows.filter _) = _
  rw [players_saveMatch_of_none hrow, hloaded, Option.getD_some,
    Table.rows_putAll_of_new hnew hkeys, List.filter_append]
  have hnone : w.players.rows.filter (fun p => decide (p.matchId = m.id)) = [] := hroster
  have hall : (w₁.roster m.id).filter (fun p => decide (p.matchId = m.id)) = w₁.roster m.id := by
    refine List.filter_eq_self.mpr fun p hp => ?_
    simpa using hown p hp
  rw [hnone, hall, List.nil_append]

/-- A save of the match as it was read at an earlier moment. -/
theorem Steady.save (h : Steady matchId w₀ w) {w₁ : World} {r r' : MatchRow} {m : MatchEntity}
    (hpast : Steady matchId w₀ w₁) (hread : w₁.row matchId = some r) (hid : r'.id = r.id)
    (hwritten : m = ⟨r', some (w₁.roster matchId)⟩) : Steady matchId w₀ (w.saveMatch m) := by
  obtain ⟨hfirst, hplayers⟩ := hpast.of_stored (by rw [hread]; exact Option.some_ne_none r)
  have hmatch : m.id = matchId := by
    rw [hwritten]
    exact hid.trans (id_of_row hread)
  have hloaded : m.players = some (w₁.roster matchId) := by rw [hwritten]
  subst hmatch
  obtain ⟨t, hrow⟩ := row_saveMatch_self (w := w) m
  have hstored : (w.saveMatch m).row m.id ≠ none := by
    rw [hrow]
    exact Option.some_ne_none _
  refine .kept hfirst hstored ?_
  cases h with
  | kept _ stored players =>
      obtain ⟨old, hold⟩ := Option.ne_none_iff_exists'.mp stored
      rw [roster, players_saveMatch hold]
      exact players
  | gone _ absent =>
      rw [roster_saveMatch_of_absent absent hloaded, hplayers]
  | never first => exact absurd first hfirst

/-- A commit that confirms the match. -/
theorem Steady.confirm (h : Steady matchId w₀ w) {r : MatchRow} {userId : UserId}
    {confirmedAt : Date} (hrow : w.row matchId = some r) :
    Steady matchId w₀
      ((w.votedWorld matchId userId).saveMatch ⟨r.confirmedAtTime confirmedAt, none⟩) := by
  have hvoted : (w.votedWorld matchId userId).row matchId = some r := by
    rw [row_votedWorld, hrow]
  have hid : (r.confirmedAtTime confirmedAt).id = matchId :=
    (id_of_row hrow : r.id = matchId)
  obtain ⟨t, hview⟩ := matchView_saveMatch (m := ⟨r.confirmedAtTime confirmedAt, none⟩) hid hvoted
  have hroster := congrArg MatchView.roster hview
  have hstored : ((w.votedWorld matchId userId).saveMatch
      ⟨r.confirmedAtTime confirmedAt, none⟩).row matchId ≠ none := fun hnone =>
    Option.some_ne_none _ ((congrArg MatchView.row hview).symm.trans hnone)
  refine h.of_same ?_ (hroster.trans (roster_votedWorld ..)) fun hnone _ => ?_
  · exact iff_of_false hstored (hrow ▸ Option.some_ne_none r)
  · exact absurd (hrow.symm.trans hnone) (Option.some_ne_none r)

omit [DecidableEq θ] in
/-- Any call of a request of the vote, where the worlds before it are steady. -/
theorem Request.Does.steady {request : Request} {h : History θ} {event : CallEvent θ}
    (hvote : request.route.InVote matchId)
    (hsteady : ∀ h₀ : History θ, Past h₀ h → Steady matchId w₀ h₀.world)
    (hdoes : request.Does h event) : Steady matchId w₀ event.world := by
  have hnow := hsteady h (.refl h)
  cases hdoes with
  | silent same =>
      have hview := same.matchView matchId
      have hrow : event.world.row matchId = h.world.row matchId := congrArg MatchView.row hview
      exact hnow.of_same (by rw [hrow]) (congrArg MatchView.roster hview) fun _ hnone =>
        (congrArg MatchView.votes hview).trans hnone
  | @save tid id h₀ r r' past read saves m written =>
      have hid : id = matchId := by
        cases saves with
        | update route | startPlaying route | submitResult route | cancel route =>
            rw [route] at hvote
            cases hvote
            try rfl
      subst hid
      exact hnow.save (hsteady h₀ past) read saves.id written
  | @deleteVotes tid id route =>
      rw [route] at hvote
      cases hvote
      have hview := matchView_deleteAllConfirmations h.world matchId
      exact hnow.of_same Iff.rfl rfl fun _ _ => congrArg MatchView.votes hview
  | @vote tid id r players votes =>
      rw [votes.route] at hvote
      cases hvote
      refine hnow.of_same (by rw [row_votedWorld]) (roster_votedWorld ..) fun hrow _ => ?_
      exact absurd (votes.row.symm.trans hrow) (Option.some_ne_none r)
  | @confirm tid id r players votes quorum h₃ counted confirmedAt =>
      rw [votes.route] at hvote
      cases hvote
      exact hnow.confirm votes.row
  | recordDelete route action => exact hnow.of_same Iff.rfl rfl fun _ hnone => hnone
  | @delete tid id route admin =>
      have hid : id = matchId := by
        rcases route with route | route <;> rw [route] at hvote <;> cases hvote <;> rfl
      subst hid
      have habsent := matchView_deleteMatch h.world id
      cases hnow with
      | kept first | gone first => exact .gone first habsent
      | never first => exact .never first (congrArg MatchView.row habsent)
  | create route | savePlayers route | announce route | overrideResult route =>
      rw [route] at hvote
      cases hvote

/-- The terms of such a run: any call may fail, and each leaves the match steady. -/
def voteContract (θ : Type) (matchId : MatchId) (w₀ : World) :
    Contract θ Call Call.Result Failure World where
  init w := w = w₀
  allow _ _ _ _ := True
  guar _ event := Steady matchId w₀ event.world

omit [DecidableEq θ] in
/-- Every world of such a run is steady. -/
theorem steady_of_valid {h : History θ} (hv : (voteContract θ matchId w₀).Valid h) :
    Steady matchId w₀ h.world := by
  refine hv.induction (I := fun h => Steady matchId w₀ h.world) (fun w hw => ?_)
    fun _ _ _ _ hguar => hguar
  obtain rfl : w = w₀ := hw
  exact .start

omit [DecidableEq θ] in
/-- The requests of the vote keep the terms. -/
theorem admits_vote {request : Request} {i : θ} (hvote : request.route.InVote matchId) :
    Admits (voteContract θ matchId w₀) i request := fun _ _ _ hv hdoes =>
  hdoes.steady hvote fun _ hpast => steady_of_valid (hv.past hpast)

/-! ## The calls of `confirm` -/

variable {i : θ} {h h' : History θ} {s : Session} {α β : Type}

/-- A postcondition that only says what holds when a value is returned. -/
def Returns (P : α → History θ → Prop) (result : Except Failure α) (_ : Session) (h : History θ) :
    Prop :=
  ∀ value, result = .ok value → P value h

/-- A call of `confirm` between two of its own: the others have made calls in the meantime, none
of them under its lock. -/
structure Meantime (i : θ) (matchId : MatchId) (w₀ : World) (locked : Bool) (h h' : History θ) :
    Prop where
  made : h'.madeBy i = h.madeBy i
  steady : Steady matchId w₀ h'.world
  frozen : locked = true → h' = h

theorem madeBy_snoc_self {op : Call} {result : Except Failure op.Result} {world : World} :
    (h.snoc ⟨i, op, result, world⟩).madeBy i = ⟨i, op, result, world⟩ :: h.madeBy i := by
  simp [madeBy]

/-- The locked read is the one made, whatever the call does after it. -/
theorem lockedRead_snoc {op : Call} {result : Except Failure op.Result} {world : World}
    (hmade : h'.madeBy i = h.madeBy i) (hop : op ≠ .findMatchForUpdate matchId) :
    lockedRead i matchId (h'.snoc ⟨i, op, result, world⟩) = lockedRead i matchId h := by
  simp [lockedRead, madeBy_snoc_self, hop, hmade]

/-- What a call of `confirm` that returns `status` has done by then. -/
structure Reported (i : θ) (matchId : MatchId) (userId : UserId)
    (status : ConfirmationStatusResult) (h : History θ) : Prop where
  ended : ∃ read ended, lockedRead i matchId h = some read ∧ sectionEnd i h = some ended ∧
    ((ended.HasVote matchId userId ∨ read.status matchId = some .confirmed) ↔
      read.TakesVote matchId userId)
  described : ∃ event ∈ h.madeBy i, event.world.DescribedBy matchId status

/-- The calls that neither begin nor end a locked section. -/
def Call.marksSection : Call → Bool
  | .findMatchForUpdate _ | .commitTransaction | .rollbackTransaction => true
  | _ => false

/-- A call outside the locked section adds nothing to a report. -/
theorem Reported.snoc {userId : UserId} {status : ConfirmationStatusResult} {op : Call}
    {result : Except Failure op.Result} {world : World}
    (hreported : Reported i matchId userId status h) (hmade : h'.madeBy i = h.madeBy i)
    (hop : op.marksSection = false) :
    Reported i matchId userId status (h'.snoc ⟨i, op, result, world⟩) := by
  obtain ⟨⟨read, ended, hread, hended, hkept⟩, event, hevent, hdescribed⟩ := hreported
  refine ⟨⟨read, ended, ?_, ?_, hkept⟩, event, ?_, hdescribed⟩
  · rw [lockedRead_snoc hmade (by rintro rfl; cases hop)]
    exact hread
  · have hnot : ¬ (op = .commitTransaction ∨ op = .rollbackTransaction) := by
      rintro (rfl | rfl) <;> cases hop
    simpa [sectionEnd, madeBy_snoc_self, hnot, hmade] using hended
  · rw [madeBy_snoc_self, hmade]
    exact List.mem_cons_of_mem _ hevent

/-- A call, with what follows it when it goes through. -/
theorem returns_call {op : Call} {next : op.Result → Api α} {P : α → History θ → Prop}
    (hcall : ∀ h', Meantime i matchId w₀ s.locked h h' →
      Steady matchId w₀ (exec op s h'.world).2.2 ∧
        ∀ value, (exec op s h'.world).1 = .ok value →
          wp system (voteContract θ matchId w₀) i (next value) (exec op s h'.world).2.1
            (h'.snoc ⟨i, op, .ok value, (exec op s h'.world).2.2⟩) (Returns P)) :
    wp system (voteContract θ matchId w₀) i (await op >>= next) s h (Returns P) := by
  refine wp_perform_bind fun h' hmean hv fails _ => ?_
  have hsteady := steady_of_valid hv
  obtain ⟨hguar, hnext⟩ := hcall h' ⟨hmean.madeBy, hsteady, fun hlocked =>
    hmean.eq hlocked fun _ => rfl⟩
  rcases perform_cases fails op s h'.world with hperform | hperform
  · rw [hperform]
    refine ⟨hguar, ?_⟩
    cases hresult : (exec op s h'.world).1 with
    | ok value => exact hnext value hresult
    | error failure => exact fun _ => nofun
  · rw [hperform]
    exact ⟨hsteady, fun _ => nofun⟩

/-- A call that leaves the world as it is. -/
theorem returns_read {op : Call} {f : World → op.Result} {g : World → Session}
    {next : op.Result → Api α} {P : α → History θ → Prop}
    (hop : ∀ w, exec op s w = (.ok (f w), g w, w))
    (hnext : ∀ h', Meantime i matchId w₀ s.locked h h' →
      wp system (voteContract θ matchId w₀) i (next (f h'.world)) (g h'.world)
        (h'.snoc ⟨i, op, .ok (f h'.world), h'.world⟩) (Returns P)) :
    wp system (voteContract θ matchId w₀) i (await op >>= next) s h (Returns P) := by
  refine returns_call fun h' hmeantime => ?_
  rw [hop]
  refine ⟨hmeantime.steady, fun value hvalue => ?_⟩
  cases hvalue
  exact hnext h' hmeantime

/-- The commit of a section: the writes reach the world that its reads have seen. -/
theorem returns_commit {changes : List Write} {next : Unit → Api α} {P : α → History θ → Prop}
    (hsteady : Steady matchId w₀ (changes.foldl Write.commit h.world))
    (hnext : wp system (voteContract θ matchId w₀) i (next ()) {}
      (h.snoc ⟨i, .commitTransaction, .ok (), changes.foldl Write.commit h.world⟩) (Returns P)) :
    wp system (voteContract θ matchId w₀) i (await .commitTransaction >>= next)
      ⟨some changes, true⟩ h (Returns P) := by
  refine returns_call fun h₁ hmeantime => ?_
  obtain rfl := hmeantime.frozen rfl
  exact ⟨hsteady, fun _ _ => hnext⟩

/-- A player who has passed the checks of `confirm`: the match was stored, and the roster was read
in full. -/
structure Checked (matchId : MatchId) (w₀ : World) (userId : UserId)
    (players : List MatchPlayerEntity) : Prop where
  first : w₀.row matchId ≠ none
  count : players.length = (w₀.roster matchId).length
  player : IsPlayer (players.map (·.userId)) userId

/-- A status that counts the votes of a steady world by the roster of the checks describes it. -/
theorem Checked.describes {userId : UserId} {players : List MatchPlayerEntity}
    (hchecked : Checked matchId w₀ userId players) (hsteady : Steady matchId w₀ w) :
    w.DescribedBy matchId (statusOf matchId players.length (w.votes matchId)) := by
  refine ⟨rfl, by simp [statusOf], ?_⟩
  cases hsteady with
  | kept _ _ length =>
      rw [length, ← hchecked.count]
      rfl
  | gone _ absent =>
      have hroster : w.roster matchId = [] := congrArg MatchView.roster absent
      have hvotes : w.votes matchId = [] := congrArg MatchView.votes absent
      simp [statusOf, hroster, hvotes, calculateQuorum]
  | never first => exact absurd first hchecked.first

/-- The branch that only reports: the section ends in the world it began in. -/
theorem reportCurrent_returns {userId : UserId} {players : List MatchPlayerEntity}
    (hchecked : Checked matchId w₀ userId players)
    (hread : lockedRead i matchId h = some h.world)
    (hother : h.world.status matchId ≠ some .awaitingConfirmation) :
    wp system (voteContract θ matchId w₀) i
      (ConfirmationService.reportCurrent matchId players) ⟨some [], true⟩ h
      (Returns (Reported i matchId userId)) := by
  unfold ConfirmationService.reportCurrent
  refine returns_read (fun _ => rfl) fun h₁ hmeantime => ?_
  obtain rfl := hmeantime.frozen rfl
  refine returns_read (fun _ => rfl) fun h₂ hmeantime₂ => ?_
  intro value hvalue
  cases hvalue
  refine ⟨⟨h₁.world, h₁.world, ?_, ?_, ?_⟩, ?_⟩
  · rw [lockedRead_snoc hmeantime₂.made (by simp), lockedRead_snoc rfl (by simp)]
    exact hread
  · simp [sectionEnd, madeBy_snoc_self, hmeantime₂.made]
  · unfold World.TakesVote
    rw [or_iff_right hother]
    exact or_comm
  · exact ⟨_, by rw [madeBy_snoc_self]; exact List.mem_cons_self,
      hchecked.describes hmeantime₂.steady⟩

/-- A player is in the locked section, and has read the match as `r`, which awaits confirmation. -/
structure Casting (i : θ) (matchId : MatchId) (w₀ : World) (userId : UserId)
    (players : List MatchPlayerEntity) (r : MatchRow) (h : History θ) : Prop where
  checked : Checked matchId w₀ userId players
  read : lockedRead i matchId h = some h.world
  row : h.world.row matchId = some r
  awaiting : r.status = .awaitingConfirmation

variable {userId : UserId} {players : List MatchPlayerEntity} {r : MatchRow}

/-- A read in the section, which the lock keeps everybody else out of. -/
theorem Casting.snoc (hcasting : Casting i matchId w₀ userId players r h) {op : Call}
    {result : Except Failure op.Result} (hop : op ≠ .findMatchForUpdate matchId) :
    Casting i matchId w₀ userId players r (h.snoc ⟨i, op, result, h.world⟩) := by
  obtain ⟨hchecked, hread, hrow, hawaiting⟩ := hcasting
  exact ⟨hchecked, (lockedRead_snoc rfl hop).trans hread, hrow, hawaiting⟩

/-- The commit of the section, in a world with the caller's vote. -/
theorem Casting.commit (hcasting : Casting i matchId w₀ userId players r h)
    (hsteady : Steady matchId w₀ w) (hvote : w.HasVote matchId userId)
    {votes : List MatchConfirmationEntity} (hvotes : w.votes matchId = votes) :
    Reported i matchId userId (statusOf matchId players.length votes)
      (h.snoc ⟨i, .commitTransaction, .ok (), w⟩) := by
  subst hvotes
  refine ⟨⟨h.world, w, ?_, ?_, ?_⟩, ⟨i, .commitTransaction, .ok (), w⟩, ?_,
    hcasting.checked.describes hsteady⟩
  · exact (lockedRead_snoc rfl (by simp)).trans hcasting.read
  · simp [sectionEnd, madeBy_snoc_self]
  · refine iff_of_true (.inl hvote) (.inl ?_)
    rw [World.status, hcasting.row, Option.map_some, hcasting.awaiting]
  · rw [madeBy_snoc_self]
    exact List.mem_cons_self

omit [DecidableEq θ] in
/-- The caller's vote is stored with the section's writes. -/
theorem hasVote_votedWorld (hplayer : IsPlayer (players.map (·.userId)) userId) :
    (w.votedWorld matchId userId).HasVote matchId userId :=
  ((votedWorld_cast w matchId hplayer).voters userId).mpr (.inr rfl)

omit [DecidableEq θ] in
theorem Steady.votedWorld (hsteady : Steady matchId w₀ w) (hrow : w.row matchId = some r) :
    Steady matchId w₀ (w.votedWorld matchId userId) := by
  refine hsteady.of_same (by rw [row_votedWorld]) (roster_votedWorld ..) fun hnone _ => ?_
  exact absurd (hrow.symm.trans hnone) (Option.some_ne_none r)

omit [DecidableEq θ] in
/-- A job touches no table. -/
theorem sameTables_add (queue : Queue) (job : EventEnvelope) (s : Session) (w : World) :
    SameTables w (exec (.add queue job) s w).2.2 := sameTables_enqueue w queue job

/-- A call after the locked section, which touches no table. -/
theorem reported_quiet {op : Call} {next : op.Result → Api ConfirmationStatusResult}
    {status : ConfirmationStatusResult} (hreported : Reported i matchId userId status h)
    (hop : op.marksSection = false) (hsame : ∀ w, SameTables w (exec op s w).2.2)
    (hnext : ∀ value s' h', Reported i matchId userId status h' →
      wp system (voteContract θ matchId w₀) i (next value) s' h'
        (Returns (Reported i matchId userId))) :
    wp system (voteContract θ matchId w₀) i (await op >>= next) s h
      (Returns (Reported i matchId userId)) := by
  refine returns_call fun h₁ hmeantime => ⟨?_, fun value _ => ?_⟩
  · have hview := (hsame h₁.world).matchView matchId
    have hrow : (exec op s h₁.world).2.2.row matchId = h₁.world.row matchId :=
      congrArg MatchView.row hview
    refine hmeantime.steady.of_same (by rw [hrow]) (congrArg MatchView.roster hview) ?_
    exact fun _ hnone => (congrArg MatchView.votes hview).trans hnone
  · exact hnext value _ _ (hreported.snoc hmeantime.made hop)

/-- The quorum's branch: the vote and the confirmed match are committed, and the events follow. -/
theorem confirmMatch_returns {next : Unit → Api ConfirmationStatusResult}
    (hcasting : Casting i matchId w₀ userId players r h) (hsteady : Steady matchId w₀ h.world)
    (hnext : ∀ s' h', Reported i matchId userId
      (statusOf matchId players.length ((h.world.votedWorld matchId userId).votes matchId)) h' →
      wp system (voteContract θ matchId w₀) i (next ()) s' h'
        (Returns (Reported i matchId userId))) :
    wp system (voteContract θ matchId w₀) i
      (ConfirmationService.confirmMatch matchId ⟨r, none⟩ >>= next)
      ⟨some (h.world.voteWrites matchId userId), true⟩ h (Returns (Reported i matchId userId)) := by
  unfold ConfirmationService.confirmMatch
  simp only [Prog.bind_assoc]
  refine returns_read (fun _ => rfl) fun h₁ hmeantime => ?_
  obtain rfl := hmeantime.frozen rfl
  refine returns_read (fun _ => rfl) fun h₂ hmeantime => ?_
  obtain rfl := hmeantime.frozen rfl
  have hvote : ∀ m : MatchEntity,
      ((h₁.world.votedWorld matchId userId).saveMatch m).HasVote matchId userId := fun m => by
    rw [World.HasVote, votes_saveMatch]
    exact hasVote_votedWorld hcasting.checked.player
  refine returns_commit ?_ ?_
  · rw [List.foldl_append]
    exact hsteady.confirm hcasting.row
  rw [List.foldl_append]
  have hcasting₁ : Casting i matchId w₀ userId players r
      (h₁.snoc ⟨i, .now, .ok h₁.world.clock, h₁.world⟩) := hcasting.snoc (by simp)
  refine reported_quiet ((hcasting₁.snoc (by simp)).commit (hsteady.confirm hcasting.row) (hvote _)
    (votes_saveMatch _ _)) rfl .refl fun occurredAt s₄ h₄ hreported => ?_
  refine reported_quiet hreported rfl (sameTables_add _ _ _) fun _ s₅ h₅ hreported => ?_
  refine reported_quiet hreported rfl .refl fun occurredAt s₆ h₆ hreported => ?_
  refine reported_quiet hreported rfl (sameTables_add _ _ _) fun _ s₇ h₇ hreported => ?_
  exact hnext s₇ h₇ hreported

/-- The end of the locked section, for votes that were counted in it. -/
theorem settle_returns (hcasting : Casting i matchId w₀ userId players r h)
    (hsteady : Steady matchId w₀ h.world) :
    wp system (voteContract θ matchId w₀) i
      (ConfirmationService.settle matchId players ⟨r, none⟩
        ((h.world.votedWorld matchId userId).votes matchId))
      ⟨some (h.world.voteWrites matchId userId), true⟩ h
      (Returns (Reported i matchId userId)) := by
  have hvote : (h.world.votedWorld matchId userId).HasVote matchId userId :=
    hasVote_votedWorld hcasting.checked.player
  unfold ConfirmationService.settle
  split
  · refine confirmMatch_returns hcasting hsteady fun s' h' hreported => ?_
    intro value hvalue
    cases hvalue
    exact hreported
  · refine returns_commit (hsteady.votedWorld hcasting.row) ?_
    intro value hvalue
    cases hvalue
    exact hcasting.commit (hsteady.votedWorld hcasting.row) hvote rfl

/-- The `if (!existing)` block leaves the caller's vote in the transaction. -/
theorem saveVote_returns {next : Unit → Api α} {P : α → History θ → Prop}
    (hcasting : Casting i matchId w₀ userId players r h)
    (hnext : ∀ h', h'.world = h.world → Casting i matchId w₀ userId players r h' →
      wp system (voteContract θ matchId w₀) i (next ())
        ⟨some (h'.world.voteWrites matchId userId), true⟩ h' (Returns P)) :
    wp system (voteContract θ matchId w₀) i
      (ConfirmationService.saveVote matchId userId (h.world.confirmations.get (matchId, userId)) >>=
        next) ⟨some [], true⟩ h (Returns P) := by
  unfold ConfirmationService.saveVote
  cases hget : h.world.confirmations.get (matchId, userId) with
  | some c =>
      have hrest := hnext h rfl hcasting
      rw [voteWrites, hget] at hrest
      exact hrest
  | none =>
      rw [Prog.bind_assoc]
      refine returns_read (fun _ => rfl) fun h₁ hmeantime => ?_
      obtain rfl := hmeantime.frozen rfl
      have hrest := hnext (h₁.snoc ⟨i, .saveConfirmation matchId userId,
        .ok (h₁.world.newConfirmation matchId userId), h₁.world⟩) rfl (hcasting.snoc (by simp))
      rw [voteWrites, world_snoc, hget] at hrest
      exact hrest

/-- The branch of `confirm` for a match that awaits confirmation. -/
theorem castVote_returns (hcasting : Casting i matchId w₀ userId players r h)
    (hsteady : Steady matchId w₀ h.world) :
    wp system (voteContract θ matchId w₀) i
      (ConfirmationService.castVote matchId userId players ⟨r, none⟩) ⟨some [], true⟩ h
      (Returns (Reported i matchId userId)) := by
  unfold ConfirmationService.castVote
  refine returns_read (fun _ => rfl) fun h₁ hmeantime => ?_
  obtain rfl := hmeantime.frozen rfl
  refine saveVote_returns (hcasting.snoc (by simp)) fun h₂ hsame hcasting₂ => ?_
  refine returns_read (fun _ => rfl) fun h₃ hmeantime => ?_
  obtain rfl := hmeantime.frozen rfl
  exact settle_returns (hcasting₂.snoc (by simp)) (hsame ▸ hsteady)

/-- The `try` block of `confirm`. -/
theorem lockedSection_returns (hchecked : Checked matchId w₀ userId players) :
    wp system (voteContract θ matchId w₀) i
      (ConfirmationService.lockedSection matchId userId players) ⟨some [], false⟩ h
      (Returns (Reported i matchId userId)) := by
  unfold ConfirmationService.lockedSection
  refine returns_read (fun _ => rfl) fun h₁ hmeantime => ?_
  have hread : ∀ result, lockedRead i matchId
      (h₁.snoc ⟨i, .findMatchForUpdate matchId, result, h₁.world⟩) = some h₁.world := fun _ => by
    simp [lockedRead, madeBy_snoc_self]
  rw [Session.view_some, List.foldl_nil]
  cases hrow : h₁.world.row matchId with
  | none =>
      refine reportCurrent_returns hchecked (hread _) ?_
      rw [world_snoc, World.status, hrow]
      intro hstatus
      cases hstatus
  | some r =>
      rw [Option.map_some, Option.filter_some]
      by_cases hawaiting : r.status = .awaitingConfirmation
      · rw [if_pos (by simpa using hawaiting)]
        exact castVote_returns ⟨hchecked, hread _, hrow, hawaiting⟩ hmeantime.steady
      · rw [if_neg (by simpa using hawaiting)]
        refine reportCurrent_returns hchecked (hread _) ?_
        rw [world_snoc, World.status, hrow, Option.map_some]
        exact fun hstatus => hawaiting (Option.some.inj hstatus)

/-- The `catch` block rolls back and throws. -/
theorem rollback_returns {failure : Failure} :
    wp system (voteContract θ matchId w₀) i
      (await .rollbackTransaction >>= fun _ => (Prog.throw failure : Api α)) s h
      (Returns fun _ _ => False) := by
  refine returns_call fun h₁ hmeantime => ⟨?_, fun _ _ _ => nofun⟩
  cases htransaction : s.transaction <;> simp only [exec, htransaction] <;> exact hmeantime.steady

/-- `confirm` in a run of the vote. -/
theorem confirm_returns :
    wp system (voteContract θ matchId w₀) i (ConfirmationService.confirm matchId userId) {} h
      (Returns (Reported i matchId userId)) := by
  have hthrow : ∀ failure s h, Returns (Reported i matchId userId) (.error failure) s h :=
    fun _ _ _ _ => nofun
  unfold ConfirmationService.confirm
  refine returns_read (fun _ => rfl) fun h₀ hmeantime₀ => ?_
  refine wp_bind.mpr (wp_require.mpr ⟨fun _ => hthrow _ _ _, fun m hm => ?_⟩)
  obtain ⟨r, hrow, rfl⟩ := Option.map_eq_some_iff.mp hm
  obtain ⟨hfirst, _⟩ := hmeantime₀.steady.of_stored (by rw [hrow]; exact Option.some_ne_none r)
  refine wp_bind.mpr (wp_throwIf.mpr ⟨fun _ => hthrow _ _ _, fun _ => ?_⟩)
  refine returns_read (fun _ => rfl) fun h₁ hmeantime₁ => ?_
  refine wp_bind.mpr (wp_throwIf.mpr ⟨fun _ => hthrow _ _ _, fun hplayer => ?_⟩)
  have hplayer := Decidable.not_not.mp hplayer
  have hchecked : Checked matchId w₀ userId (h₁.world.roster matchId) := by
    refine ⟨hfirst, ?_, hplayer⟩
    cases hmeantime₁.steady with
    | kept _ _ length => exact length
    | gone _ absent =>
        have hroster : h₁.world.roster matchId = [] := congrArg MatchView.roster absent
        rw [hroster] at hplayer
        cases hplayer
    | never first => exact absurd first hfirst
  refine returns_read (fun _ => rfl) fun h₂ _ => ?_
  refine returns_read (fun _ => rfl) fun h₃ _ => ?_
  refine wp_catchFinally.mpr (wp_mono (lockedSection_returns hchecked) ?_)
  intro outcome s h₄ hreturned
  cases outcome with
  | ok status =>
      have hreported := hreturned status rfl
      refine reported_quiet hreported rfl .refl fun _ s₅ h₅ hreported => ?_
      intro value hvalue
      cases hvalue
      exact hreported
  | error failure =>
      refine wp_mono rollback_returns fun handled s₅ h₅ hhandled => ?_
      cases handled with
      | ok value => exact (hhandled value rfl).elim
      | error failure =>
          exact returns_call fun h₆ hmeantime => ⟨hmeantime.steady, fun _ _ => hthrow _ _ _⟩

/-! ## Runs -/

/-- What is known of a request that has ended: a `confirm` that returned has reported. -/
def Request.Reports (request : Request) (i : θ) (matchId : MatchId)
    (result : Except Failure Response) (h : History θ) : Prop :=
  request.route = .confirmResult matchId → ∀ status,
    result = .ok (.confirmationStatus status) → Reported i matchId request.user.sub status h

/-- A request of the vote meets the terms. -/
theorem Request.vote_wp {request : Request} (hvote : request.route.InVote matchId) :
    wp system (voteContract θ matchId w₀) i request.prog {} h
      fun result _ h' => request.Reports i matchId result h' := by
  by_cases hroute : request.route = .confirmResult matchId
  · obtain ⟨user, route⟩ := request
    obtain rfl : route = .confirmResult matchId := hroute
    refine wp_bind.mpr (wp_mono confirm_returns fun result s' h' hreturned => ?_)
    cases result with
    | error failure => exact fun _ _ => nofun
    | ok value =>
        intro _ status hstatus
        cases hstatus
        exact hreturned value rfl
  · exact wp_mono (request.safe (admits_vote hvote)) fun _ _ _ _ hconfirm =>
      absurd hconfirm hroute

/-- In every run of `confirm`, `cancel` and delete requests on a match, whatever calls fail, a
`confirm` that has returned a status has kept the vote and describes the match as it was during the
call if and only if the match took the vote at the locked read. -/
theorem confirm_answered_iff {requests : θ → Request} {c : Running θ}
    {status : ConfirmationStatusResult} (hvote : ∀ j, (requests j).route.InVote matchId)
    (hreach : Reach system (fun _ _ _ _ => True) (w.begin fun j => .request (requests j)) c)
    (hroute : (requests i).route = .confirmResult matchId)
    (hended : c.resultOf i = some (.ok (.confirmationStatus status))) :
    Answered i matchId (requests i).user.sub status c.trace ↔
      ∃ read ∈ lockedRead i matchId c.trace, read.TakesVote matchId (requests i).user.sub := by
  have hreports : (requests i).Reports i matchId _ c.trace :=
    Contract.result_post (C := voteContract θ matchId w)
      (Q := fun j result _ h => (requests j).Reports j matchId result h) hreach rfl rfl
      (fun j result _ h event hother _ hreports hconfirm status hstatus => by
        have hmade : (h.snoc event).madeBy j = h.madeBy j := madeBy_snoc_other h hother
        obtain ⟨hends, hdescribed⟩ := hreports hconfirm status hstatus
        exact ⟨by simpa only [lockedRead, sectionEnd, hmade] using hends, hmade ▸ hdescribed⟩)
      (fun j => (requests j).vote_wp (hvote j)) hended
  obtain ⟨⟨read, ended, hread, hend, hkept⟩, hdescribed⟩ := hreports hroute status rfl
  constructor
  · rintro ⟨⟨read', hread', ended', hend', hkeeps⟩, _⟩
    obtain rfl := Option.some.inj (hread.symm.trans hread')
    obtain rfl := Option.some.inj (hend.symm.trans hend')
    exact ⟨read, hread, hkept.mp hkeeps⟩
  · rintro ⟨read', hread', htakes⟩
    obtain rfl := Option.some.inj (hread.symm.trans hread')
    exact ⟨⟨read, hread, ended, hend, hkept.mpr htakes⟩, hdescribed⟩

/-- `mario` cancels and `rival` confirms. -/
def cancelOvertakes : Fin 2 → Request
  | 0 => ⟨mario, .cancelConfirmation 1⟩
  | 1 => ⟨rival, .confirmResult 1⟩

theorem inVote_cancelOvertakes (i : Fin 2) : (cancelOvertakes i).route.InVote 1 := by
  match i with
  | 0 => exact .cancel
  | 1 => exact .confirm

/-- `mario` cancels after `rival` has confirmed. -/
theorem confirm_answered_iff_duel :
    ∃ (c : Running (Fin 2)) (status : ConfirmationStatusResult),
      c.resultOf 1 = some (.ok (.confirmationStatus status)) ∧
      (Answered 1 1 2 status c.trace ↔ ∃ read ∈ lockedRead 1 1 c.trace, read.TakesVote 1 2) := by
  obtain ⟨c, hreach, htest⟩ := Reach.exists_of_execute system (fun _ _ _ _ => True)
    (((World.withUsers signedIn).run duel).begin fun i => .request (cancelOvertakes i))
    (.replicate 10 (1, false) ++ .replicate 3 (0, false))
    (fun c => c.resultOf 1 =
      some (.ok (.confirmationStatus (statusOf 1 2 [⟨1, 2, 0⟩])))) (by decide)
  have hended := of_decide_eq_true htest
  exact ⟨c, _, hended, confirm_answered_iff inVote_cancelOvertakes hreach rfl hended⟩

/-- `mario` cancels between `rival`'s checks and its locked read: `rival`'s call returns, and no
vote is stored. -/
theorem not_confirm_answered_cancel :
    ¬ ∀ (requests : Fin 2 → Request) (w : World) (c : Running (Fin 2)) (i : Fin 2)
      (matchId : MatchId) (status : ConfirmationStatusResult),
      (∀ j, (requests j).route.InVote matchId) →
      Reach system (fun _ _ _ _ => True) (w.begin fun j => .request (requests j)) c →
      (requests i).route = .confirmResult matchId →
      c.resultOf i = some (.ok (.confirmationStatus status)) →
      Answered i matchId (requests i).user.sub status c.trace := by
  intro h
  obtain ⟨c, hreach, htest⟩ := Reach.exists_of_execute system (fun _ _ _ _ => True)
    (((World.withUsers signedIn).run duel).begin fun i => .request (cancelOvertakes i))
    (.replicate 4 (1, false) ++ .replicate 3 (0, false) ++ .replicate 4 (1, false))
    (fun c => c.resultOf 1 = some (.ok (.confirmationStatus (statusOf 1 2 []))) ∧
      (lockedRead 1 1 c.trace).all (·.status 1 ≠ some .confirmed) ∧
      (sectionEnd 1 c.trace).all (¬ ·.HasVote 1 2)) (by decide)
  obtain ⟨hended, hread, hend⟩ := of_decide_eq_true htest
  obtain ⟨⟨read, hread', ended, hend', hkept⟩, _⟩ :=
    h _ _ c 1 1 _ inVote_cancelOvertakes hreach rfl hended
  rw [Option.mem_def.mp hread'] at hread
  rw [Option.mem_def.mp hend'] at hend
  rcases hkept with hkept | hkept
  · exact of_decide_eq_true hend hkept
  · exact of_decide_eq_true hread hkept

end FoosballApi.Matches
