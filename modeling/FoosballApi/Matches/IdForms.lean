import FoosballApi.Calls.Raising
import FoosballApi.Matches.ServiceSpecs

/-!
# Ids as numbers and as strings

At run time an id is a number or a decimal string: `BIGINT` columns read back as strings, while the
`id` of a row that was just inserted is a number. The `sub` of a token is the `id` of the user that
`upsert` returned, so it has the one form after a first login and the other after every later one.

The ids elsewhere in this development are the numbers that both forms denote. Here the five
methods that compare `sub` with a column are stated for both forms: the comparisons are strict, so a
number never equals a column, while SQL parameters stand for the number they denote. With the
string form the methods are those of the services.
-/

namespace FoosballApi.Matches

open Calls Data Prog World Users Events

/-- An id at run time. -/
inductive JsId where
  | number (value : Nat)
  /-- The decimal string of a number. -/
  | decimal (value : Nat)
  deriving DecidableEq, Repr

namespace JsId

/-- The number that an id denotes; SQL compares by it. -/
def denotes : JsId → Nat
  | number value => value
  | decimal value => value

/-- What a `BIGINT` column reads back as. -/
def column (value : Nat) : JsId := .decimal value

/-- The `sub` that a login signs: the `id` of the entity that `upsert` returns, which is the row
found before or the one just inserted. -/
def signed (known : Option UserEntity) (user : UserEntity) : JsId :=
  match known with
  | some _ => column user.id
  | none => .number user.id

end JsId

/-! ## The methods

The bodies that follow the checks are those of the services; the equations below say so. -/

namespace MatchService

/-- `update` after its checks. -/
def saveScores (matchId : MatchId) (dto : UpdateMatchDto) (m : MatchEntity) : Api MatchEntity := do
  let m := { m with scoreA := dto.scoreA.getD m.scoreA, scoreB := dto.scoreB.getD m.scoreB }
  let saved ← await (.save m)
  let players ← await (.findPlayers matchId)
  return { saved with players := some players }

/-- `addPlayers` after its first checks. -/
def registerPlayers (matchId : MatchId) (dto : AddPlayersDto) (m : MatchEntity) :
    Api MatchEntity := do
  let existingPlayers ← await (.findPlayers matchId)
  let capacity := matchCapacity m.matchType
  Prog.throwIf (capacity < existingPlayers.length + dto.players.length)
    (.capacityExceeded m.matchType capacity existingPlayers.length)
  checkSlots matchId existingPlayers dto.players
  let _ ← await (.savePlayers (dto.players.map (·.toEntity matchId)))
  let allPlayers ← await (.findPlayers matchId)
  let m ← startPlaying m allPlayers
  return { m with players := some allPlayers }

/-- `submitResult` after its first checks. -/
def saveResult (matchId : MatchId) (dto : SubmitResultDto) (m : MatchEntity) :
    Api MatchEntity := do
  let players ← await (.findPlayers matchId)
  let capacity := matchCapacity m.matchType
  Prog.throwIf (players.length < capacity)
    (.insufficientPlayers m.matchType capacity players.length)
  let saved ← await (.save
    { m with
      scoreA := some dto.scoreA
      scoreB := some dto.scoreB
      status := .awaitingConfirmation })
  let occurredAt ← await .now
  await (.add .matchesQueue
    { eventType := .matchResultSubmitted
      version := 1
      occurredAt := occurredAt
      payload := .matchResultSubmitted matchId saved.matchType dto.scoreA dto.scoreB })
  return { saved with players := some players }

/-- `match.createdBy !== sub`, and the status check that follows it. -/
def checkEditableBy (matchId : MatchId) (m : MatchEntity) (sub : JsId)
    (notCreator locked : String) : Api Unit := do
  Prog.throwIf (NotCreator (m.createdBy.map JsId.column) sub) (.forbiddenNotCreator notCreator)
  Prog.throwIf m.status.Locked (.matchLocked locked matchId m.status)

/-- `update(matchId, sub, dto)`. -/
def updateBy (matchId : MatchId) (sub : JsId) (dto : UpdateMatchDto) : Api MatchEntity := do
  let m ← findById matchId
  checkEditableBy matchId m sub "Only the match creator can update this match" cannotModify
  saveScores matchId dto m

/-- `addPlayers(matchId, sub, dto)`. -/
def addPlayersBy (matchId : MatchId) (sub : JsId) (dto : AddPlayersDto) : Api MatchEntity := do
  let m ← findById matchId
  checkEditableBy matchId m sub "Only the match creator can add players" cannotModify
  registerPlayers matchId dto m

/-- `submitResult(matchId, sub, dto)`. -/
def submitResultBy (matchId : MatchId) (sub : JsId) (dto : SubmitResultDto) :
    Api MatchEntity := do
  let m ← findById matchId
  checkEditableBy matchId m sub "Only the match creator can submit the result"
    "Match is already in confirmation or confirmed"
  saveResult matchId dto m

end MatchService

namespace ConfirmationService

/-- `confirm` after its checks. -/
def confirmLocked (matchId : MatchId) (userId : UserId) (players : List MatchPlayerEntity) :
    Api ConfirmationStatusResult := do
  await .connect
  await .startTransaction
  Prog.catchFinally (lockedSection matchId userId players)
    (fun err => do
      await .rollbackTransaction
      Prog.throw err)
    (await .release)

/-- `confirm(matchId, sub)`. -/
def confirmBy (matchId : MatchId) (sub : JsId) : Api ConfirmationStatusResult := do
  let matchPreCheck ← Prog.require (← await (.findById matchId)) (.matchNotFound matchId)
  Prog.throwIf (matchPreCheck.status ≠ .awaitingConfirmation)
    (.matchNotAwaitingConfirmation matchPreCheck.status)
  let players ← await (.findPlayers matchId)
  Prog.throwIf (¬ IsPlayer (players.map fun p => JsId.column p.userId) sub) .notAPlayer
  confirmLocked matchId sub.denotes players

/-- `cancel` after its checks. -/
def cancelConfirmation (matchId : MatchId) (userId : UserId) (m : MatchEntity) :
    Api ConfirmationStatusResult := do
  await (.deleteAllConfirmations matchId)
  let _ ← await (.save { m with status := .playing })
  let occurredAt ← await .now
  await (.add .matchesQueue
    { eventType := .matchConfirmationCancelled
      version := 1
      occurredAt := occurredAt
      payload := .matchCancelled matchId userId })
  let players ← await (.findPlayers matchId)
  return { matchId := matchId
           totalPlayers := players.length
           confirmedCount := 0
           quorumRequired := calculateQuorum players.length
           quorumReached := false
           confirmations := [] }

/-- `cancel(matchId, sub)`. -/
def cancelBy (matchId : MatchId) (sub : JsId) : Api ConfirmationStatusResult := do
  let m ← Prog.require (← await (.findById matchId)) (.matchNotFound matchId)
  Prog.throwIf (m.status = .confirmed) (.matchAlreadyConfirmed matchId m.status)
  Prog.throwIf (m.status ≠ .awaitingConfirmation) (.matchNotAwaitingConfirmation m.status)
  Prog.throwIf (NotCreator (m.createdBy.map JsId.column) sub)
    (.forbiddenNotCreator "Only the match creator can cancel the confirmation phase")
  cancelConfirmation matchId sub.denotes m

end ConfirmationService

/-! ## The string form is the model's -/

variable {α : Type} {w : World} {matchId : MatchId} {r : MatchRow} {sub : JsId}

/-- Guards that agree throw alike. -/
theorem throwIf_congr {refused refused' : Prop} [Decidable refused] [Decidable refused']
    {error : Failure} (h : refused ↔ refused') :
    (throwIf refused error : Api Unit) = throwIf refused' error := by
  unfold throwIf
  by_cases hrefused : refused
  · rw [if_pos hrefused, if_pos (h.mp hrefused)]
  · rw [if_neg hrefused, if_neg fun h' => hrefused (h.mpr h')]

/-- A string equals a column when it denotes the same number. -/
theorem notCreator_decimal {createdBy : Option UserId} {n : Nat} :
    NotCreator (createdBy.map JsId.column) (.decimal n) ↔ NotCreator createdBy n := by
  cases createdBy with
  | none => simp [NotCreator]
  | some creator => simp [NotCreator, JsId.column]

/-- A number never equals a column. -/
theorem notCreator_number (createdBy : Option UserId) (n : Nat) :
    NotCreator (createdBy.map JsId.column) (.number n) := by
  cases createdBy with
  | none => exact nofun
  | some creator => exact nofun

theorem isPlayer_decimal {players : List MatchPlayerEntity} {n : Nat} :
    IsPlayer (players.map fun p => JsId.column p.userId) (.decimal n) ↔
      IsPlayer (players.map (·.userId)) n := by
  simp [IsPlayer, JsId.column]

theorem not_isPlayer_number (players : List MatchPlayerEntity) (n : Nat) :
    ¬ IsPlayer (players.map fun p => JsId.column p.userId) (.number n) := by
  simp [IsPlayer, JsId.column]

theorem checkEditableBy_decimal (m : MatchEntity) (n : Nat) (notCreator locked : String) :
    MatchService.checkEditableBy matchId m (.decimal n) notCreator locked =
      MatchService.checkEditable matchId m n notCreator locked := by
  rw [MatchService.checkEditableBy, throwIf_congr notCreator_decimal]
  rfl

theorem updateBy_decimal (matchId : MatchId) (n : Nat) (dto : UpdateMatchDto) :
    MatchService.updateBy matchId (.decimal n) dto = MatchService.update matchId n dto := by
  simp only [MatchService.updateBy, checkEditableBy_decimal]
  rfl

theorem addPlayersBy_decimal (matchId : MatchId) (n : Nat) (dto : AddPlayersDto) :
    MatchService.addPlayersBy matchId (.decimal n) dto = MatchService.addPlayers matchId n dto := by
  simp only [MatchService.addPlayersBy, checkEditableBy_decimal]
  rfl

theorem submitResultBy_decimal (matchId : MatchId) (n : Nat) (dto : SubmitResultDto) :
    MatchService.submitResultBy matchId (.decimal n) dto =
      MatchService.submitResult matchId n dto := by
  simp only [MatchService.submitResultBy, checkEditableBy_decimal]
  rfl

theorem confirmBy_decimal (matchId : MatchId) (n : Nat) :
    ConfirmationService.confirmBy matchId (.decimal n) = ConfirmationService.confirm matchId n := by
  simp only [ConfirmationService.confirmBy, throwIf_congr (not_congr isPlayer_decimal)]
  rfl

theorem cancelBy_decimal (matchId : MatchId) (n : Nat) :
    ConfirmationService.cancelBy matchId (.decimal n) = ConfirmationService.cancel matchId n := by
  simp only [ConfirmationService.cancelBy, throwIf_congr notCreator_decimal]
  rfl

/-! ## Passing the checks -/

/-- The method is not refused for want of being the creator. -/
def PassesCreatorCheck (w : World) (program : Api α) : Prop :=
  program.after system noFaults [] {} w fun out =>
    ∀ message, out.result ≠ .error (.forbiddenNotCreator message)

/-- The method is not refused for want of being a player. -/
def PassesPlayerCheck (w : World) (program : Api α) : Prop :=
  program.after system noFaults [] {} w fun out => out.result ≠ .error .notAPlayer

/-- The method looks a user's vote up and finds it: it writes no second one. -/
def FindsVote (w : World) (matchId : MatchId) (userId : UserId) (program : Api α) : Prop :=
  program.after system noFaults [] {} w fun out =>
    .findOneConfirmation matchId userId ∈ out.calls ∧
      ∀ id u, .saveConfirmation id u ∉ out.calls

/-- The checks of a stored match mean what they say for this `sub`: the creator and the players pass
them, and nobody else; and a player's vote is found for that player only. `cancel` and `confirm`
reach these checks when the match awaits confirmation. -/
structure ChecksAgree (w : World) (matchId : MatchId) (r : MatchRow) (sub : JsId) : Prop where
  update : ∀ dto, PassesCreatorCheck w (MatchService.updateBy matchId sub dto) ↔
    r.createdBy = some sub.denotes
  addPlayers : ∀ dto, PassesCreatorCheck w (MatchService.addPlayersBy matchId sub dto) ↔
    r.createdBy = some sub.denotes
  submitResult : ∀ dto, PassesCreatorCheck w (MatchService.submitResultBy matchId sub dto) ↔
    r.createdBy = some sub.denotes
  cancel : r.status = .awaitingConfirmation →
    (PassesCreatorCheck w (ConfirmationService.cancelBy matchId sub) ↔
      r.createdBy = some sub.denotes)
  player : r.status = .awaitingConfirmation →
    (PassesPlayerCheck w (ConfirmationService.confirmBy matchId sub) ↔
      sub.denotes ∈ (w.roster matchId).map (·.userId))
  vote : r.status = .awaitingConfirmation → ∀ c ∈ w.votes matchId,
    c.userId ∈ (w.roster matchId).map (·.userId) →
      (FindsVote w matchId c.userId (ConfirmationService.confirmBy matchId sub) ↔
        sub.denotes = c.userId)

/-! ### Which exceptions the bodies raise -/

/-- A carried-out call raises a constraint or a missing transaction. -/
theorem exec_error {op : Call} {s : Session} {error : Failure}
    (h : (exec op s w).1 = .error error) :
    error = .constraint ∨ error = .transactionNotStarted := by
  cases op with
  | savePlayers | saveUser | insertUser | commitTransaction | rollbackTransaction =>
      simp only [exec] at h
      split at h
      all_goals cases h
      all_goals simp
  | _ => cases h

/-- An exception that no check of an id throws. -/
structure NotByCheck (failure : Failure) : Prop where
  notForbidden : ∀ message, failure ≠ .forbiddenNotCreator message
  ne_notAPlayer : failure ≠ .notAPlayer

/-- An exception with another status than 403. -/
theorem notByCheck_of_status {failure : Failure}
    (h : ∀ exception, failure = .http exception → exception.status ≠ 403) : NotByCheck failure := by
  constructor
  · rintro message rfl
    exact h _ rfl rfl
  · rintro rfl
    exact h _ rfl rfl

theorem raises_await (op : Call) : Raises system NotByCheck (await op) := by
  have hplain : ∀ failure : Failure, failure = .constraint ∨ failure = .transactionNotStarted ∨
      failure = .unavailable → NotByCheck failure := by
    rintro failure (rfl | rfl | rfl) <;> exact notByCheck_of_status fun _ h => by cases h
  refine raises_perform (fun error herror => ?_) fun s w error herror => ?_
  · refine hplain error (.inr (.inr ?_))
    unfold system at herror
    cases op <;> cases herror <;> rfl
  · rcases exec_error herror with hconstraint | hmissing
    · exact hplain error (.inl hconstraint)
    · exact hplain error (.inr (.inl hmissing))

/-- A guard with another status than 403. -/
theorem raises_guard {refused : Prop} [Decidable refused] {exception : HttpException}
    (h : exception.status ≠ 403) :
    Raises system NotByCheck (throwIf refused (.http exception) : Api Unit) := by
  refine raises_throwIf (notByCheck_of_status fun exception' h' => ?_)
  cases h'
  exact h

theorem raises_saveScores (dto : UpdateMatchDto) (m : MatchEntity) :
    Raises system NotByCheck (MatchService.saveScores matchId dto m) :=
  raises_bind (raises_await _) fun _ => raises_bind (raises_await _) fun _ => raises_pure

theorem raises_checkSlots (existing : List MatchPlayerEntity) (ps : List PlayerDto) :
    Raises system NotByCheck (MatchService.checkSlots matchId existing ps) := by
  induction ps with
  | nil => exact raises_pure
  | cons p ps ih => exact raises_bind (raises_guard (by simp)) fun _ => ih

theorem raises_startPlaying (m : MatchEntity) (allPlayers : List MatchPlayerEntity) :
    Raises system NotByCheck (MatchService.startPlaying m allPlayers) := by
  unfold MatchService.startPlaying
  split
  · exact raises_bind (raises_await _) fun _ => raises_pure
  · exact raises_pure

theorem raises_registerPlayers (dto : AddPlayersDto) (m : MatchEntity) :
    Raises system NotByCheck (MatchService.registerPlayers matchId dto m) :=
  raises_bind (raises_await _) fun _ =>
    raises_bind (raises_guard (by simp)) fun _ =>
      raises_bind (raises_checkSlots _ _) fun _ =>
        raises_bind (raises_await _) fun _ =>
          raises_bind (raises_await _) fun _ =>
            raises_bind (raises_startPlaying _ _) fun _ => raises_pure

theorem raises_saveResult (dto : SubmitResultDto) (m : MatchEntity) :
    Raises system NotByCheck (MatchService.saveResult matchId dto m) :=
  raises_bind (raises_await _) fun _ =>
    raises_bind (raises_guard (by simp)) fun _ =>
      raises_bind (raises_await _) fun _ =>
        raises_bind (raises_await _) fun _ =>
          raises_bind (raises_await _) fun _ => raises_pure

theorem raises_cancelConfirmation (userId : UserId) (m : MatchEntity) :
    Raises system NotByCheck (ConfirmationService.cancelConfirmation matchId userId m) :=
  raises_bind (raises_await _) fun _ =>
    raises_bind (raises_await _) fun _ =>
      raises_bind (raises_await _) fun _ =>
        raises_bind (raises_await _) fun _ =>
          raises_bind (raises_await _) fun _ => raises_pure

theorem raises_settle (players : List MatchPlayerEntity) (m : MatchEntity)
    (votes : List MatchConfirmationEntity) :
    Raises system NotByCheck (ConfirmationService.settle matchId players m votes) := by
  unfold ConfirmationService.settle
  split
  · refine raises_bind ?_ fun _ => raises_pure
    exact raises_bind (raises_await _) fun _ =>
      raises_bind (raises_await _) fun _ =>
        raises_bind (raises_await _) fun _ =>
          raises_bind (raises_await _) fun _ =>
            raises_bind (raises_await _) fun _ =>
              raises_bind (raises_await _) fun _ => raises_await _
  · exact raises_bind (raises_await _) fun _ => raises_pure

theorem raises_lockedSection (userId : UserId) (players : List MatchPlayerEntity) :
    Raises system NotByCheck (ConfirmationService.lockedSection matchId userId players) := by
  refine raises_bind (raises_await _) fun found => ?_
  split
  · exact raises_bind (raises_await _) fun _ => raises_bind (raises_await _) fun _ => raises_pure
  · refine raises_bind (raises_await _) fun existing => raises_bind ?_ fun _ =>
      raises_bind (raises_await _) fun _ => raises_settle _ _ _
    cases existing with
    | some c => exact raises_pure
    | none => exact raises_bind (raises_await _) fun _ => raises_pure

theorem raises_confirmLocked (userId : UserId) (players : List MatchPlayerEntity) :
    Raises system NotByCheck (ConfirmationService.confirmLocked matchId userId players) := by
  refine raises_bind (raises_await _) fun _ => raises_bind (raises_await _) fun _ =>
    raises_catchFinally (raises_lockedSection userId players) (fun error herror => ?_)
      (raises_await _)
  exact raises_bind (raises_await _) fun _ => raises_throw herror

/-! ### What the checks see -/

/-- An id equals the creator column exactly when it is the string that denotes the creator. -/
theorem not_notCreator_column {createdBy : Option UserId} :
    ¬ NotCreator (createdBy.map JsId.column) sub ↔
      sub = .decimal sub.denotes ∧ createdBy = some sub.denotes := by
  cases sub with
  | number n => exact iff_of_false (not_not.mpr (notCreator_number _ _)) fun h => nomatch h.1
  | decimal n => simp [notCreator_decimal, JsId.denotes]

/-- What follows a creator check is reached exactly when the check holds, and raises nothing that
the check would. -/
theorem passes_throwIf {refused : Prop} [Decidable refused] {message : String} {next : Unit → Api α}
    {calls : List Call} {s : Session}
    (hnext : ∀ value, Raises system NotByCheck (next value)) :
    (throwIf refused (.forbiddenNotCreator message) >>= next).after system noFaults calls s w
        (fun out => ∀ message, out.result ≠ .error (.forbiddenNotCreator message)) ↔
      ¬ refused := by
  rw [after_throwIf_bind]
  constructor
  · intro h hrefused
    exact h.1 hrefused message rfl
  · intro hgo
    refine ⟨fun hrefused => absurd hrefused hgo, fun _ => ?_⟩
    refine after_mono (hnext () noFaults calls s w) fun out hout message herror => ?_
    exact (hout _ herror).notForbidden message rfl

/-- `findById` of a stored match goes on with the match and its players. -/
theorem after_findById {next : MatchEntity → Api α}
    {Q : Outcome Call Failure Session World α → Prop} (hrow : w.row matchId = some r) :
    (MatchService.findById matchId >>= next).after system noFaults [] {} w Q ↔
      (next ⟨r, some (w.roster matchId)⟩).after system noFaults [.findById matchId] {} w Q := by
  simp [MatchService.findById, exec, World.findById, hrow]

/-- A method that starts with the creator check passes it exactly when the check holds. -/
theorem passesCreatorCheck_editable {notCreator locked : String} {next : MatchEntity → Api α}
    (hrow : w.row matchId = some r) (hnext : ∀ m, Raises system NotByCheck (next m)) :
    PassesCreatorCheck w (do
        let m ← MatchService.findById matchId
        MatchService.checkEditableBy matchId m sub notCreator locked
        next m) ↔
      sub = .decimal sub.denotes ∧ r.createdBy = some sub.denotes := by
  rw [← not_notCreator_column, PassesCreatorCheck, after_findById hrow,
    MatchService.checkEditableBy, bind_assoc]
  exact passes_throwIf fun _ => raises_bind (raises_guard (by simp)) fun _ => hnext _

/-- Reading a stored match that must be there goes on with the match and its players. -/
theorem after_requireMatch {failure : Failure} {next : MatchEntity → Api α}
    {Q : Outcome Call Failure Session World α → Prop} (hrow : w.row matchId = some r) :
    (do
        let m ← Prog.require (← await (.findById matchId)) failure
        next m : Api α).after system noFaults [] {} w Q ↔
      (next ⟨r, some (w.roster matchId)⟩).after system noFaults [.findById matchId] {} w Q := by
  have hread : system.perform (noFaults [] (Call.findById matchId)) (.findById matchId) {} w =
      (.ok (some ⟨r, some (w.roster matchId)⟩), {}, w) := by
    rw [perform_noFaults, exec, World.findById, hrow]
    rfl
  rw [after_perform_ok hread, require_some, pure_bind_eq]

/-- `cancel` passes its creator check exactly when the check holds. -/
theorem passesCreatorCheck_cancelBy (hrow : w.row matchId = some r)
    (hawait : r.status = .awaitingConfirmation) :
    PassesCreatorCheck w (ConfirmationService.cancelBy matchId sub) ↔
      sub = .decimal sub.denotes ∧ r.createdBy = some sub.denotes := by
  have hconfirmed : r.status ≠ .confirmed := by
    rw [hawait]
    exact MatchStatus.awaitingConfirmation_ne_confirmed
  rw [← not_notCreator_column, PassesCreatorCheck, ConfirmationService.cancelBy,
    after_requireMatch hrow, after_throwIf_of_not hconfirmed,
    after_throwIf_of_not (not_not.mpr hawait)]
  exact passes_throwIf fun _ => raises_cancelConfirmation _ _

/-- `confirm` of a match awaiting confirmation goes on after the player check, or ends there. -/
theorem after_confirmBy {Q : Outcome Call Failure Session World ConfirmationStatusResult → Prop}
    (hrow : w.row matchId = some r) (hawait : r.status = .awaitingConfirmation) :
    (ConfirmationService.confirmBy matchId sub).after system noFaults [] {} w Q ↔
      (¬ IsPlayer ((w.roster matchId).map fun p => JsId.column p.userId) sub →
        Q ⟨.error .notAPlayer, [.findPlayers matchId, .findById matchId], {}, w⟩) ∧
      (IsPlayer ((w.roster matchId).map fun p => JsId.column p.userId) sub →
        (ConfirmationService.confirmLocked matchId sub.denotes (w.roster matchId)).after system
          noFaults [.findPlayers matchId, .findById matchId] {} w Q) := by
  have hread : system.perform (noFaults [Call.findById matchId] (Call.findPlayers matchId))
      (.findPlayers matchId) {} w = (.ok (w.roster matchId), {}, w) := rfl
  rw [ConfirmationService.confirmBy, after_requireMatch hrow,
    after_throwIf_of_not (not_not.mpr hawait), after_perform_ok hread, after_throwIf_bind, not_not]

/-- A player is recognized exactly by the string that denotes the player. -/
theorem isPlayer_column {players : List MatchPlayerEntity} :
    IsPlayer (players.map fun p => JsId.column p.userId) sub ↔
      sub = .decimal sub.denotes ∧ sub.denotes ∈ players.map (·.userId) := by
  cases sub with
  | number n => exact iff_of_false (not_isPlayer_number _ _) fun h => nomatch h.1
  | decimal n =>
      rw [isPlayer_decimal]
      exact ⟨fun h => ⟨rfl, h⟩, fun h => h.2⟩

/-- `confirm` passes its player check exactly when the check holds. -/
theorem passesPlayerCheck_confirmBy (hrow : w.row matchId = some r)
    (hawait : r.status = .awaitingConfirmation) :
    PassesPlayerCheck w (ConfirmationService.confirmBy matchId sub) ↔
      sub = .decimal sub.denotes ∧ sub.denotes ∈ (w.roster matchId).map (·.userId) := by
  rw [← isPlayer_column, PassesPlayerCheck, after_confirmBy hrow hawait]
  constructor
  · intro h
    by_contra hstranger
    exact h.1 hstranger rfl
  · intro hplayer
    refine ⟨fun hstranger => absurd hplayer hstranger, fun _ => ?_⟩
    refine after_mono (raises_confirmLocked _ _ noFaults _ {} w) fun out hout herror => ?_
    exact (hout _ herror).ne_notAPlayer rfl

/-! ### The caller's vote -/

/-- A call that neither looks a vote up nor writes one. -/
def Call.Voteless : Call → Prop
  | .findOneConfirmation .. | .saveConfirmation .. => False
  | _ => True

variable {may : Call → Prop} {userId : UserId} {players : List MatchPlayerEntity}

theorem issues_settle (hmay : ∀ op : Call, op.Voteless → may op) (m : MatchEntity)
    (votes : List MatchConfirmationEntity) :
    (ConfirmationService.settle matchId players m votes).Issues may := by
  unfold ConfirmationService.settle
  split
  · refine issues_bind ?_ fun _ => trivial
    exact issues_bind (issues_perform (hmay _ trivial)) fun _ =>
      issues_bind (issues_perform (hmay _ trivial)) fun _ =>
        issues_bind (issues_perform (hmay _ trivial)) fun _ =>
          issues_bind (issues_perform (hmay _ trivial)) fun _ =>
            issues_bind (issues_perform (hmay _ trivial)) fun _ =>
              issues_bind (issues_perform (hmay _ trivial)) fun _ =>
                issues_perform (hmay _ trivial)
  · exact issues_bind (issues_perform (hmay _ trivial)) fun _ => trivial

/-- Only the caller's vote is looked up and written. -/
theorem issues_lockedSection (hmay : ∀ op : Call, op.Voteless → may op)
    (hfind : may (.findOneConfirmation matchId userId))
    (hsave : may (.saveConfirmation matchId userId)) :
    (ConfirmationService.lockedSection matchId userId players).Issues may := by
  refine issues_bind (issues_perform (hmay _ trivial)) fun found => ?_
  split
  · exact issues_bind (issues_perform (hmay _ trivial)) fun _ =>
      issues_bind (issues_perform (hmay _ trivial)) fun _ => trivial
  · refine issues_bind (issues_perform hfind) fun existing => issues_bind ?_ fun _ =>
      issues_bind (issues_perform (hmay _ trivial)) fun _ => issues_settle hmay _ _
    cases existing with
    | some c => trivial
    | none => exact issues_bind (issues_perform hsave) fun _ => trivial

theorem issues_confirmBy (hmay : ∀ op : Call, op.Voteless → may op)
    (hfind : may (.findOneConfirmation matchId sub.denotes))
    (hsave : may (.saveConfirmation matchId sub.denotes)) :
    (ConfirmationService.confirmBy matchId sub).Issues may := by
  refine issues_bind (issues_perform (hmay _ trivial)) fun _ => issues_bind issues_require fun _ =>
    issues_bind issues_throwIf fun _ => issues_bind (issues_perform (hmay _ trivial)) fun _ =>
      issues_bind issues_throwIf fun _ => issues_bind (issues_perform (hmay _ trivial)) fun _ =>
        issues_bind (issues_perform (hmay _ trivial)) fun _ =>
          issues_catchFinally (issues_lockedSection hmay hfind hsave) (fun _ => ?_)
            (issues_perform (hmay _ trivial))
  exact issues_bind (issues_perform (hmay _ trivial)) fun _ => trivial

/-- `confirm` looks up the vote of the user that `sub` denotes. -/
theorem denotes_of_findsVote (h : FindsVote w matchId userId
    (ConfirmationService.confirmBy matchId sub)) : sub.denotes = userId := by
  have hissues : (ConfirmationService.confirmBy matchId sub).Issues fun op =>
      ∀ id u, op = .findOneConfirmation id u → sub.denotes = u := by
    refine issues_confirmBy (fun op hop id u heq => ?_) (fun id u heq => ?_) fun id u heq => ?_
    · rw [heq] at hop
      exact hop.elim
    · cases heq
      rfl
    · cases heq
  obtain ⟨made, hcalls, hmade⟩ := calls_of_issues (S := system) hissues noFaults [] {} w
  have hfound := h.1
  rw [hcalls, List.append_nil] at hfound
  exact hmade _ hfound matchId userId rfl

/-- The caller's vote has been looked up and found. -/
def VoteFound (matchId : MatchId) (userId : UserId) (calls : List Call) : Prop :=
  .findOneConfirmation matchId userId ∈ calls ∧ ∀ id u, .saveConfirmation id u ∉ calls

/-- What follows and writes no vote leaves it so. -/
theorem VoteFound.after {program : Api α} {calls : List Call} {s : Session}
    (h : VoteFound matchId userId calls)
    (hissues : program.Issues fun op => ∀ id u, op ≠ .saveConfirmation id u) :
    program.after system noFaults calls s w fun out => VoteFound matchId userId out.calls := by
  refine after_mono (calls_of_issues hissues noFaults calls s w) fun out hout => ?_
  obtain ⟨made, hcalls, hmade⟩ := hout
  rw [hcalls]
  refine ⟨List.mem_append_right _ h.1, fun id u hmem => ?_⟩
  rcases List.mem_append.mp hmem with hnew | hold
  · exact hmade _ hnew id u rfl
  · exact h.2 id u hold

/-- The locked section finds a stored vote of its caller. -/
theorem voteFound_lockedSection {calls : List Call} {c : MatchConfirmationEntity}
    (hrow : w.row matchId = some r) (hawait : r.status = .awaitingConfirmation)
    (hget : w.confirmations.get (matchId, userId) = some c)
    (hnone : ∀ id u, .saveConfirmation id u ∉ calls) :
    (ConfirmationService.lockedSection matchId userId players).after system noFaults calls
      ⟨some [], false⟩ w fun out => VoteFound matchId userId out.calls := by
  simp only [ConfirmationService.lockedSection, ConfirmationService.castVote, after_bind,
    after_perform, perform_noFaults, exec, Session.view_some, List.foldl_nil, hrow,
    Option.map_some, Option.filter_some, hawait, decide_true, if_true, hget,
    ConfirmationService.saveVote, after_pure, pure_eq]
  have hfound : VoteFound matchId userId (.findTransactionConfirmations matchId ::
      .findOneConfirmation matchId userId :: .findMatchForUpdate matchId :: calls) :=
    ⟨by simp, fun id u => by simpa using hnone id u⟩
  refine hfound.after (issues_settle (fun op hop id u heq => ?_) _ _)
  rw [heq] at hop
  exact hop

/-- `confirm` finds the vote of a player who has voted. -/
theorem findsVote_decimal {c : MatchConfirmationEntity} (hrow : w.row matchId = some r)
    (hawait : r.status = .awaitingConfirmation) (hc : c ∈ w.votes matchId)
    (hplayer : c.userId ∈ (w.roster matchId).map (·.userId)) :
    FindsVote w matchId c.userId (ConfirmationService.confirmBy matchId (.decimal c.userId)) := by
  have hvoteless : ∀ op : Call, op.Voteless → ∀ id u, op ≠ .saveConfirmation id u := by
    rintro op hop id u rfl
    exact hop
  have hget : w.confirmations.get (matchId, c.userId) = some c := by
    obtain ⟨hmem, hid⟩ := mem_votes.mp hc
    exact Table.get_eq_some.mpr ⟨hmem, Prod.ext hid rfl⟩
  rw [FindsVote, after_confirmBy hrow hawait]
  refine ⟨fun hstranger => absurd (isPlayer_decimal.mpr hplayer) hstranger, fun _ => ?_⟩
  simp only [ConfirmationService.confirmLocked, after_bind, after_perform, perform_noFaults, exec,
    after_catchFinally]
  refine after_mono (voteFound_lockedSection hrow hawait hget (by simp)) fun out hout => ?_
  refine after_mono (hout.after ?_) fun handled hfound => ?_
  · cases out.result with
    | ok value => trivial
    | error error => exact issues_bind (issues_perform (hvoteless _ trivial)) fun _ => trivial
  · rw [after_resume]
    exact ⟨List.mem_cons_of_mem _ hfound.1, fun id u => by simpa using hfound.2 id u⟩

/-! ## Both forms -/

theorem passesCreatorCheck_updateBy (hrow : w.row matchId = some r) (dto : UpdateMatchDto) :
    PassesCreatorCheck w (MatchService.updateBy matchId sub dto) ↔
      sub = .decimal sub.denotes ∧ r.createdBy = some sub.denotes :=
  passesCreatorCheck_editable hrow (raises_saveScores dto)

theorem passesCreatorCheck_addPlayersBy (hrow : w.row matchId = some r) (dto : AddPlayersDto) :
    PassesCreatorCheck w (MatchService.addPlayersBy matchId sub dto) ↔
      sub = .decimal sub.denotes ∧ r.createdBy = some sub.denotes :=
  passesCreatorCheck_editable hrow (raises_registerPlayers dto)

theorem passesCreatorCheck_submitResultBy (hrow : w.row matchId = some r) (dto : SubmitResultDto) :
    PassesCreatorCheck w (MatchService.submitResultBy matchId sub dto) ↔
      sub = .decimal sub.denotes ∧ r.createdBy = some sub.denotes :=
  passesCreatorCheck_editable hrow (raises_saveResult dto)

/-- The checks of a stored match mean what they say for a `sub` exactly when it is a string, or its
user neither created the match nor is a player who may confirm it. -/
theorem checksAgree_iff (w : World) (matchId : MatchId) (r : MatchRow) (sub : JsId)
    (hrow : w.row matchId = some r) :
    ChecksAgree w matchId r sub ↔ sub = .decimal sub.denotes ∨
      r.createdBy ≠ some sub.denotes ∧ (r.status = .awaitingConfirmation →
        sub.denotes ∉ (w.roster matchId).map (·.userId)) := by
  constructor
  · intro h
    by_cases hform : sub = .decimal sub.denotes
    · exact .inl hform
    · refine .inr ⟨fun hcreator => hform ?_, fun hawait hplayer => hform ?_⟩
      · have hpasses := (h.update ⟨none, none⟩).mpr hcreator
        exact ((passesCreatorCheck_updateBy hrow _).mp hpasses).1
      · have hpasses := (h.player hawait).mpr hplayer
        exact ((passesPlayerCheck_confirmBy hrow hawait).mp hpasses).1
  · intro h
    -- In both cases the form of `sub` does not matter to the comparison.
    have hcreator : sub = .decimal sub.denotes ∧ r.createdBy = some sub.denotes ↔
        r.createdBy = some sub.denotes :=
      and_iff_right_of_imp fun hcreator => h.resolve_right fun hother => hother.1 hcreator
    have hplayer : r.status = .awaitingConfirmation →
        (sub = .decimal sub.denotes ∧ sub.denotes ∈ (w.roster matchId).map (·.userId) ↔
          sub.denotes ∈ (w.roster matchId).map (·.userId)) := fun hawait =>
      and_iff_right_of_imp fun hplayer => h.resolve_right fun hother => hother.2 hawait hplayer
    constructor
    · exact fun dto => (passesCreatorCheck_updateBy hrow dto).trans hcreator
    · exact fun dto => (passesCreatorCheck_addPlayersBy hrow dto).trans hcreator
    · exact fun dto => (passesCreatorCheck_submitResultBy hrow dto).trans hcreator
    · exact fun hawait => (passesCreatorCheck_cancelBy hrow hawait).trans hcreator
    · exact fun hawait => (passesPlayerCheck_confirmBy hrow hawait).trans (hplayer hawait)
    · intro hawait c hc hroster
      refine ⟨denotes_of_findsVote, fun hdenotes => ?_⟩
      have hform := ((hplayer hawait).mpr (hdenotes ▸ hroster)).1
      rw [hform, hdenotes]
      exact findsVote_decimal hrow hawait hc hroster

/-- A login of a user who was known before leaves all checks right. -/
theorem checksAgree_signed (hrow : w.row matchId = some r) (known user : UserEntity) :
    ChecksAgree w matchId r (.signed (some known) user) :=
  (checksAgree_iff w matchId r _ hrow).mpr (.inl rfl)

/-- The row of the match that awaits confirmation. -/
def awaitingRow : MatchRow :=
  ⟨1, some 1, .oneVsOne, .awaitingConfirmation, some 3, some 1, 0, 0, none, none⟩

/-- The string form of `mario`, who created the match and plays in it. -/
theorem checksAgree_mario :
    ChecksAgree ((World.withUsers signedIn).run duel) 1 awaitingRow (.decimal 1) :=
  (checksAgree_iff _ 1 awaitingRow (.decimal 1) (by decide)).mpr (.inl rfl)

/-- With the token of a first login `mario` is not the creator of the match. -/
theorem not_checksAgree_firstLogin :
    ¬ ∀ (w : World) (matchId : MatchId) (r : MatchRow) (sub : JsId), w.row matchId = some r →
      ChecksAgree w matchId r sub := by
  intro h
  have hagrees := h ((World.withUsers signedIn).run duel) 1 awaitingRow
    (.signed none ⟨1, "oid-001", "mario@foosball.test", "mario", false⟩) (by decide)
  have hrefused : ((MatchService.updateBy 1 (.number 1) ⟨none, none⟩).eval system noFaults [] {}
      ((World.withUsers signedIn).run duel)).result =
        .error (.forbiddenNotCreator "Only the match creator can update this match") := by decide
  exact (hagrees.update ⟨none, none⟩).mpr rfl _ hrefused

end FoosballApi.Matches
