import FoosballApi.Matches.ServiceSpecs

/-!
# Operations that fail

Each operation writes to the database in several steps that are committed one by one, and then
publishes a job; any awaited call in between can fail. `failed_operation_keeps_match_iff` says
exactly which failures end in an exception although something was written: those of a call after
the first write.
-/

namespace FoosballApi.Matches

open Calls Data Prog World Events

/-- The calls that fail, by their position in the run; readings of the clock count, but cannot
fail. -/
def failsAt (f : Nat → Bool) : List Call → Call → Bool := fun calls _ => f calls.length

/-- The calls up to a position go through. -/
def GoesThrough (f : Nat → Bool) (position : Nat) : Prop := ∀ k ≤ position, f k = false

/-- The match, its roster, its votes and the audit log are as before. -/
structure Kept (matchId : MatchId) (w w' : World) : Prop where
  view : w'.matchView matchId = w.matchView matchId
  auditLogs : w'.auditLogs = w.auditLogs

/-- An operation on a match, with its caller and its request body. -/
inductive Operation where
  | addPlayers (userId : UserId) (dto : AddPlayersDto)
  | submitResult (userId : UserId) (dto : SubmitResultDto)
  | cancel (userId : UserId)
  | confirm (userId : UserId)
  | deleteMatch (actorId : UserId) (isAdmin : Bool)

/-- The service method of an operation. -/
def Operation.prog (matchId : MatchId) : Operation → Api Unit
  | .addPlayers userId dto => do
      let _ ← MatchService.addPlayers matchId userId dto
      return ()
  | .submitResult userId dto => do
      let _ ← MatchService.submitResult matchId userId dto
      return ()
  | .cancel userId => do
      let _ ← ConfirmationService.cancel matchId userId
      return ()
  | .confirm userId => do
      let _ ← ConfirmationService.confirm matchId userId
      return ()
  | .deleteMatch actorId isAdmin => AdminOverrideService.deleteMatch matchId actorId isAdmin

/-! ## When a failure comes too late -/

/-- `addPlayers` has saved the players, and the second roster read or the status save fails. -/
def AddPlayersLate (w : World) (matchId : MatchId) (userId : UserId) (dto : AddPlayersDto)
    (f : Nat → Bool) : Prop :=
  ∃ r, w.row matchId = some r ∧ r.createdBy = some userId ∧ ¬ r.status.Locked ∧
    (w.roster matchId).length + dto.players.length ≤ matchCapacity r.matchType ∧
    (∀ p ∈ dto.players, slotTaken (w.roster matchId) p = false) ∧
    (w.savePlayers (dto.players.map (·.toEntity matchId))).isSome ∧
    GoesThrough f 2 ∧ (f 3 = true ∨ r.status = .draft ∧ f 4 = true)

/-- `submitResult` has saved the match, and its event is not taken. -/
def SubmitResultLate (w : World) (matchId : MatchId) (userId : UserId) (f : Nat → Bool) : Prop :=
  ∃ r, w.row matchId = some r ∧ r.createdBy = some userId ∧ ¬ r.status.Locked ∧
    matchCapacity r.matchType ≤ (w.roster matchId).length ∧ GoesThrough f 2 ∧ f 4 = true

/-- `cancel` has deleted votes and cannot save the match, or it has saved the match, and its event
is not taken or the roster read fails. -/
def CancelLate (w : World) (matchId : MatchId) (userId : UserId) (f : Nat → Bool) : Prop :=
  ∃ r, w.row matchId = some r ∧ r.createdBy = some userId ∧ r.status = .awaitingConfirmation ∧
    GoesThrough f 1 ∧
    (f 2 = true ∧ w.votes matchId ≠ [] ∨ f 2 = false ∧ (f 4 = true ∨ f 5 = true))

/-- `confirm` has committed a new vote or the confirmation, and an event is not taken or the query
runner is not released. A caller who has voted makes one call less. -/
def ConfirmLate (w : World) (matchId : MatchId) (userId : UserId) (f : Nat → Bool) : Prop :=
  ∃ r, w.row matchId = some r ∧ r.status = .awaitingConfirmation ∧
    IsPlayer ((w.roster matchId).map (·.userId)) userId ∧
    let counted := 6 + (w.voteWrites matchId userId).length
    GoesThrough f counted ∧
      if calculateQuorum (w.roster matchId).length ≤
          ((w.votedWorld matchId userId).votes matchId).length then
        f (counted + 2) = false ∧ f (counted + 3) = false ∧
          (f (counted + 5) = true ∨ f (counted + 7) = true ∨ f (counted + 8) = true)
      else
        f (counted + 1) = false ∧ w.voteWrites matchId userId ≠ [] ∧ f (counted + 2) = true

/-- `deleteMatch` has recorded the deletion of a confirmed match and cannot delete it. -/
def DeleteMatchLate (w : World) (matchId : MatchId) (isAdmin : Bool) (f : Nat → Bool) : Prop :=
  isAdmin = true ∧ (∃ r, w.row matchId = some r ∧ r.status = .confirmed) ∧ GoesThrough f 1 ∧
    f 2 = true

/-- A call of the operation fails after its first write. -/
def Operation.Late (operation : Operation) (w : World) (matchId : MatchId) (f : Nat → Bool) :
    Prop :=
  match operation with
  | .addPlayers userId dto => AddPlayersLate w matchId userId dto f
  | .submitResult userId _ => SubmitResultLate w matchId userId f
  | .cancel userId => CancelLate w matchId userId f
  | .confirm userId => ConfirmLate w matchId userId f
  | .deleteMatch _ isAdmin => DeleteMatchLate w matchId isAdmin f

/-! ## Rules -/

variable {α : Type} {f : Nat → Bool} {calls : List Call} {s : Session} {w w' : World}
  {matchId : MatchId} {userId : UserId}

theorem Kept.refl (matchId : MatchId) (w : World) : Kept matchId w w := ⟨rfl, rfl⟩

/-- When the operation ends in an exception, the match is kept. -/
def FailsClean (matchId : MatchId) (w : World) (out : Outcome Call Failure Session World α) :
    Prop :=
  (∃ failure, out.result = .error failure) → Kept matchId w out.world

/-- A postcondition that asks of an exception that the match is kept. -/
def OnFailure (matchId : MatchId) (w : World)
    (Q : Outcome Call Failure Session World α → Prop) : Prop :=
  ∀ failure calls s w', Q ⟨.error failure, calls, s, w'⟩ ↔ Kept matchId w w'

theorem failsClean_ok (value : α) : FailsClean matchId w ⟨.ok value, calls, s, w'⟩ :=
  fun ⟨_, hfailure⟩ => by cases hfailure

theorem onFailure_failsClean : OnFailure matchId w (FailsClean (α := α) matchId w) :=
  fun failure _ _ _ => ⟨fun h => h ⟨failure, rfl⟩, fun h _ => h⟩

/-- Dropping the value of an operation changes nothing. -/
theorem clean_void {program : Api α} :
    (do
      let _ ← program
      return ()).after system (failsAt f) calls s w' (FailsClean matchId w) ↔
        program.after system (failsAt f) calls s w' (FailsClean matchId w) := by
  rw [after_bind]
  refine after_congr fun out => ?_
  obtain ⟨_ | _, _, _, _⟩ := out
  · exact (onFailure_failsClean _ _ _ _).trans (onFailure_failsClean _ _ _ _).symm
  · exact iff_of_true (failsClean_ok _) (failsClean_ok _)

/-- A call fails and changes nothing, or it is carried out and the rest follows. -/
theorem after_await {op : Call} (hop : op ≠ .now) {next : op.Result → Api α}
    {Q : Outcome Call Failure Session World α → Prop} :
    (await op >>= next).after system (failsAt f) calls s w Q ↔
      (f calls.length = true → Q ⟨.error .unavailable, op :: calls, s, w⟩) ∧
      (f calls.length = false →
        match exec op s w with
        | (.ok value, s', w') =>
            (next value).after system (failsAt f) (op :: calls) s' w' Q
        | (.error failure, s', w') => Q ⟨.error failure, op :: calls, s', w'⟩) := by
  have hfault : system.fault op = some .unavailable := by
    cases op <;> first | rfl | exact absurd rfl hop
  cases hf : f calls.length with
  | true =>
      have hperform : system.perform (failsAt f calls op) op s w = (.error .unavailable, s, w) := by
        rw [failsAt, hf, System.perform_true hfault]
      rw [after_perform_error hperform]
      simp
  | false =>
      have hperform : system.perform (failsAt f calls op) op s w = exec op s w := by
        rw [failsAt, hf]
        rfl
      rcases hexec : exec op s w with ⟨failure | value, s', w'⟩ <;> rw [hexec] at hperform
      · rw [after_perform_error hperform]
        simp
      · rw [after_perform_ok hperform]
        simp

/-- A reading of the clock goes through. -/
theorem after_now {next : Date → Api α} {Q : Outcome Call Failure Session World α → Prop} :
    (await .now >>= next).after system (failsAt f) calls s w Q ↔
      (next w.clock).after system (failsAt f) (.now :: calls) s w Q :=
  after_perform_ok (System.perform_of_fault_none rfl _ s w)

section

variable {Q : Outcome Call Failure Session World α → Prop} (hQ : OnFailure matchId w Q)

include hQ

/-- A call that is carried out when it does not fail. -/
theorem clean_call {op : Call} (hop : op ≠ .now) {next : op.Result → Api α} {value : op.Result}
    {s' : Session} {w₁ w₂ : World} (hexec : exec op s w₁ = (.ok value, s', w₂)) :
    (await op >>= next).after system (failsAt f) calls s w₁ Q ↔
      (f calls.length = true → Kept matchId w w₁) ∧ (f calls.length = false →
        (next value).after system (failsAt f) (op :: calls) s' w₂ Q) := by
  rw [after_await hop, hexec, hQ]

/-- A call made before anything was written. -/
theorem clean_first {op : Call} (hop : op ≠ .now) {next : op.Result → Api α} {value : op.Result}
    {s' : Session} {w₁ : World} (hexec : exec op s w = (.ok value, s', w₁)) :
    (await op >>= next).after system (failsAt f) calls s w Q ↔
      (f calls.length = false →
        (next value).after system (failsAt f) (op :: calls) s' w₁ Q) := by
  rw [clean_call hQ hop hexec]
  exact and_iff_right fun _ => .refl matchId w

omit hQ in
/-- A failure that must not happen. -/
theorem fails_imp_iff {fails : Bool} {P : Prop} (hP : ¬ P) :
    (fails = true → P) ↔ fails = false := by
  cases fails <;> simp [hP]

/-- A call made after something was written must not fail. -/
theorem clean_late {op : Call} (hop : op ≠ .now) {next : op.Result → Api α} {value : op.Result}
    {s' : Session} {w₁ w₂ : World} (hexec : exec op s w₁ = (.ok value, s', w₂))
    (hlost : ¬ Kept matchId w w₁) :
    (await op >>= next).after system (failsAt f) calls s w₁ Q ↔
      f calls.length = false ∧
        (next value).after system (failsAt f) (op :: calls) s' w₂ Q := by
  rw [clean_call hQ hop hexec, fails_imp_iff hlost]
  exact and_congr_right fun hgoes => imp_iff_right hgoes

/-- A guard before anything was written. -/
theorem clean_throwIf {refused : Prop} [Decidable refused] {failure : Failure}
    {next : Unit → Api α} :
    (throwIf refused failure >>= next).after system (failsAt f) calls s w Q ↔
      (¬ refused → (next ()).after system (failsAt f) calls s w Q) :=
  after_throwIf_bind.trans (and_iff_right fun _ => (hQ _ _ _ _).mpr (.refl matchId w))

/-- A match that must be present, before anything was written. -/
theorem clean_found {failure : Failure} {next : MatchEntity → Api α} :
    (require (w.findById matchId) failure >>= next).after system (failsAt f) calls s w Q ↔
      ∀ r, w.row matchId = some r → (next ⟨r, some (w.roster matchId)⟩).after system (failsAt f)
        calls s w Q := by
  rw [after_bind, after_require, World.findById]
  cases w.row matchId with
  | none => simpa using (hQ _ _ _ _).mpr (.refl matchId w)
  | some r => simp

/-- The slot loop of `addPlayers`. -/
theorem clean_checkSlots {existing : List MatchPlayerEntity} {ps : List PlayerDto}
    {next : Unit → Api α} :
    (MatchService.checkSlots matchId existing ps >>= next).after system (failsAt f) calls s w Q ↔
      ((∀ p ∈ ps, slotTaken existing p = false) →
        (next ()).after system (failsAt f) calls s w Q) := by
  induction ps with
  | nil => exact ⟨fun h _ => h, fun h => h fun p hp => by cases hp⟩
  | cons p ps ih =>
      unfold MatchService.checkSlots
      rw [Prog.bind_assoc, clean_throwIf hQ, ih, List.forall_mem_cons, Bool.not_eq_true]
      exact and_imp.symm

end

theorem goesThrough_succ {position : Nat} :
    GoesThrough f (position + 1) ↔ GoesThrough f position ∧ f (position + 1) = false := by
  constructor
  · exact fun h => ⟨fun k hk => h k (by omega), h _ le_rfl⟩
  · rintro ⟨hbefore, hlast⟩ k hk
    rcases Nat.lt_or_ge position k with hlt | hle
    · obtain rfl : k = position + 1 := by omega
      exact hlast
    · exact hbefore k hle

theorem goesThrough_zero : GoesThrough f 0 ↔ f 0 = false :=
  ⟨fun h => h 0 le_rfl, fun h k hk => by rwa [Nat.le_zero.mp hk]⟩

/-- The common start of `addPlayers` and `submitResult`. -/
theorem clean_editable {Q : Outcome Call Failure Session World α → Prop}
    (hclean : OnFailure matchId w Q) {notCreator locked : String} {next : MatchEntity → Api α} :
    (do
      let m ← MatchService.findById matchId
      MatchService.checkEditable matchId m userId notCreator locked
      next m).after system (failsAt f) [] {} w Q ↔
      (f 0 = false → ∀ r, w.row matchId = some r → r.createdBy = some userId →
        ¬ r.status.Locked → (next ⟨r, some (w.roster matchId)⟩).after system (failsAt f)
          [.findById matchId] {} w Q) := by
  unfold MatchService.findById
  rw [Prog.bind_assoc, clean_first hclean (by simp) rfl]
  refine imp_congr_right fun _ => ?_
  rw [Prog.bind_assoc, clean_found hclean]
  refine forall₂_congr fun r _ => ?_
  show (MatchService.checkEditable _ _ _ _ _ >>= _).after _ _ _ _ _ _ ↔ _
  unfold MatchService.checkEditable
  rw [Prog.bind_assoc, clean_throwIf hclean, clean_throwIf hclean, not_notCreator]

/-- A saved status that differs from the stored one is not kept. -/
theorem not_kept_saveMatch {m : MatchEntity} {r : MatchRow} (hrow : w.row matchId = some r)
    (hid : m.id = matchId) (hstatus : m.status ≠ r.status) (w₁ : World) :
    ¬ Kept matchId w (w₁.saveMatch m) := by
  intro hkept
  obtain ⟨t, hsaved⟩ := row_saveMatch_self (w := w₁) m
  have hsame : (w₁.saveMatch m).row matchId = w.row matchId := congrArg MatchView.row hkept.view
  rw [← hid, hsaved, hid, hrow] at hsame
  exact hstatus (by rw [← Option.some.inj hsame])

/-- A job in a queue does not matter. -/
theorem kept_enqueue {queue : Queue} {job : EventEnvelope} :
    Kept matchId w (w'.enqueue queue job) ↔ Kept matchId w w' := by
  have hview := (sameTables_enqueue w' queue job).matchView matchId
  constructor
  · exact fun h => ⟨hview ▸ h.view, (auditLogs_enqueue w' queue job).symm.trans h.auditLogs⟩
  · exact fun h => ⟨hview.trans h.view, (auditLogs_enqueue w' queue job).trans h.auditLogs⟩

/-- Deleting the votes keeps a match that has none. -/
theorem kept_deleteAllConfirmations :
    Kept matchId w (w.deleteAllConfirmations matchId) ↔ w.votes matchId = [] := by
  have hview := matchView_deleteAllConfirmations w matchId
  constructor
  · intro hkept
    have hvotes := congrArg MatchView.votes (hkept.view.symm.trans hview)
    exact hvotes
  · intro hvotes
    refine ⟨hview.trans ?_, rfl⟩
    rw [World.matchView, hvotes]

/-! ## The operations -/

/-- `submitResult` loses nothing unless it fails late. -/
theorem submitResult_clean_iff (dto : SubmitResultDto) :
    (MatchService.submitResult matchId userId dto).after system (failsAt f) [] {} w
      (FailsClean matchId w) ↔ ¬ SubmitResultLate w matchId userId f := by
  have hruns : (MatchService.submitResult matchId userId dto).after system (failsAt f) [] {} w
      (FailsClean matchId w) ↔ (f 0 = false → ∀ r, w.row matchId = some r →
        r.createdBy = some userId → ¬ r.status.Locked → f 1 = false →
          matchCapacity r.matchType ≤ (w.roster matchId).length → f 2 = false → f 4 = false) := by
    have hclean : OnFailure matchId w (FailsClean (α := MatchEntity) matchId w) :=
      onFailure_failsClean
    unfold MatchService.submitResult
    rw [clean_editable hclean]
    refine imp_congr_right fun _ => forall₂_congr fun r hrow => imp_congr_right fun _ =>
      imp_congr_right fun hopen => ?_
    rw [clean_first hclean (by simp) rfl]
    refine imp_congr_right fun _ => ?_
    rw [clean_throwIf hclean, Nat.not_lt]
    refine imp_congr_right fun _ => ?_
    rw [clean_first hclean (by simp) rfl]
    refine imp_congr_right fun _ => ?_
    have hlost := not_kept_saveMatch (w := w)
      (m := ⟨{ r with
        scoreA := some dto.scoreA
        scoreB := some dto.scoreB
        status := .awaitingConfirmation }, some (w.roster matchId)⟩)
      hrow (show r.id = matchId from id_of_row hrow) (fun h => hopen (.inl h.symm)) w
    rw [after_now, clean_late hclean (by simp) rfl hlost]
    exact and_iff_left (failsClean_ok _)
  rw [hruns, SubmitResultLate, goesThrough_succ, goesThrough_succ, goesThrough_zero]
  grind

/-- `cancel` loses nothing unless it fails late. -/
theorem cancel_clean_iff :
    (ConfirmationService.cancel matchId userId).after system (failsAt f) [] {} w
      (FailsClean matchId w) ↔ ¬ CancelLate w matchId userId f := by
  have hruns : (ConfirmationService.cancel matchId userId).after system (failsAt f) [] {} w
      (FailsClean matchId w) ↔ (f 0 = false → ∀ r, w.row matchId = some r →
        r.status = .awaitingConfirmation → r.createdBy = some userId → f 1 = false →
          (f 2 = true → w.votes matchId = []) ∧ (f 2 = false → f 4 = false ∧ f 5 = false)) := by
    have hclean : OnFailure matchId w (FailsClean (α := ConfirmationStatusResult) matchId w) :=
      onFailure_failsClean
    unfold ConfirmationService.cancel
    rw [clean_first hclean (by simp) rfl]
    refine imp_congr_right fun _ => ?_
    rw [clean_found hclean]
    refine forall₂_congr fun r hrow => ?_
    rw [clean_throwIf hclean, clean_throwIf hclean, clean_throwIf hclean, not_not, not_notCreator]
    -- A match awaiting confirmation is not confirmed: the first guard lets it pass.
    have hguard : ∀ P : Prop, (¬ r.status = .confirmed → r.status = .awaitingConfirmation → P) ↔
        (r.status = .awaitingConfirmation → P) := fun P =>
      ⟨fun h hawait => h (by rw [hawait]; exact MatchStatus.awaitingConfirmation_ne_confirmed)
        hawait, fun h _ => h⟩
    refine (hguard _).trans (imp_congr_right fun hawait => imp_congr_right fun _ => ?_)
    rw [clean_first hclean (by simp) rfl]
    refine imp_congr_right fun _ => ?_
    have hlost := not_kept_saveMatch (w := w)
      (m := ⟨{ r with status := .playing }, some (w.roster matchId)⟩)
      hrow (show r.id = matchId from id_of_row hrow) (by rw [hawait]; nofun)
      (w.deleteAllConfirmations matchId)
    rw [clean_call hclean (by simp) rfl, kept_deleteAllConfirmations]
    refine and_congr_right fun _ => imp_congr_right fun _ => ?_
    rw [after_now, clean_late hclean (by simp) rfl hlost, clean_late hclean (by simp) rfl
      (fun h => hlost (kept_enqueue.mp h))]
    exact and_congr_right fun _ => and_iff_left (failsClean_ok _)
  rw [hruns, CancelLate, goesThrough_succ, goesThrough_zero]
  grind

/-- Saved players take slots that were free, so the roster is not kept. -/
theorem not_kept_savePlayers {dto : AddPlayersDto} {saved : World}
    (hsaved : w.savePlayers (dto.players.map (·.toEntity matchId)) = some saved)
    (hfree : ∀ p ∈ dto.players, slotTaken (w.roster matchId) p = false) :
    ¬ Kept matchId w saved := by
  intro hkept
  obtain ⟨hputAll, -⟩ := savePlayers_eq_some (P := fun _ => True) hsaved fun _ _ _ _ _ => trivial
  have hwritten : w.writeOrder (dto.players.map (·.toEntity matchId)) ≠ [] := by
    refine List.ne_nil_of_length_pos ?_
    rw [length_writeOrder]
    exact List.length_pos_of_ne_nil (dto.rows_ne_nil matchId)
  obtain ⟨row, hrow, hstored⟩ := Table.exists_mem_putAll w.players hwritten
  obtain ⟨p, hp, rfl⟩ := List.mem_map.mp (mem_writeOrder.mp hrow)
  have hroster : p.toEntity matchId ∈ saved.roster matchId := by
    rw [hputAll]
    exact mem_roster.mpr ⟨hstored, rfl⟩
  have hsame : saved.roster matchId = w.roster matchId := congrArg MatchView.roster hkept.view
  rw [hsame] at hroster
  have hnot := hfree p hp
  simp only [slotTaken, List.any_eq_false] at hnot
  exact hnot _ hroster (by simp [PlayerDto.toEntity])

/-- `addPlayers` loses nothing unless it fails late. -/
theorem addPlayers_clean_iff (dto : AddPlayersDto) :
    (MatchService.addPlayers matchId userId dto).after system (failsAt f) [] {} w
      (FailsClean matchId w) ↔ ¬ AddPlayersLate w matchId userId dto f := by
  have hruns : (MatchService.addPlayers matchId userId dto).after system (failsAt f) [] {} w
      (FailsClean matchId w) ↔ (f 0 = false → ∀ r, w.row matchId = some r →
        r.createdBy = some userId → ¬ r.status.Locked → f 1 = false →
          (w.roster matchId).length + dto.players.length ≤ matchCapacity r.matchType →
            (∀ p ∈ dto.players, slotTaken (w.roster matchId) p = false) → f 2 = false →
              (w.savePlayers (dto.players.map (·.toEntity matchId))).isSome →
                f 3 = false ∧ (r.status = .draft → f 4 = false)) := by
    have hclean : OnFailure matchId w (FailsClean (α := MatchEntity) matchId w) :=
      onFailure_failsClean
    unfold MatchService.addPlayers
    rw [clean_editable hclean]
    refine imp_congr_right fun _ => forall₂_congr fun r hrow => imp_congr_right fun _ =>
      imp_congr_right fun _ => ?_
    rw [clean_first hclean (by simp) rfl]
    refine imp_congr_right fun _ => ?_
    rw [clean_throwIf hclean, Nat.not_lt]
    refine imp_congr_right fun _ => ?_
    rw [clean_checkSlots hclean]
    refine imp_congr_right fun hfree => ?_
    rw [after_await (by simp)]
    refine (and_iff_right fun _ => (hclean _ _ _ _).mpr (.refl matchId w)).trans
      (imp_congr_right fun _ => ?_)
    rw [exec]
    cases hsaved : w.savePlayers (dto.players.map (·.toEntity matchId)) with
    | none => exact iff_of_true ((hclean _ _ _ _).mpr (.refl matchId w)) fun h => by cases h
    | some saved =>
        have hlost := not_kept_savePlayers hsaved hfree
        refine Iff.trans ?_ (imp_iff_right rfl).symm
        dsimp only
        rw [clean_late hclean (by simp) rfl hlost]
        refine and_congr_right fun _ => ?_
        have hplayers : 0 < (saved.roster matchId).length :=
          (savePlayers_registered hsaved (dto.matchId_rows matchId)).length_pos
            (dto.rows_ne_nil matchId)
        unfold MatchService.startPlaying
        by_cases hdraft : r.status = .draft
        · rw [if_pos ⟨hdraft, hplayers⟩, Prog.bind_assoc, clean_late hclean (by simp) rfl hlost]
          exact (and_iff_left (failsClean_ok _)).trans (imp_iff_right hdraft).symm
        · rw [if_neg fun h => hdraft h.1]
          exact iff_of_true (failsClean_ok _) fun h => absurd h hdraft
  rw [hruns, AddPlayersLate, goesThrough_succ, goesThrough_succ, goesThrough_zero]
  grind

/-- `deleteMatch` loses nothing unless it fails late. -/
theorem deleteMatch_clean_iff (isAdmin : Bool) :
    (AdminOverrideService.deleteMatch matchId userId isAdmin).after system (failsAt f) [] {} w
      (FailsClean matchId w) ↔ ¬ DeleteMatchLate w matchId isAdmin f := by
  have hruns : (AdminOverrideService.deleteMatch matchId userId isAdmin).after system (failsAt f)
      [] {} w (FailsClean matchId w) ↔ (isAdmin = true → f 0 = false → ∀ r,
        w.row matchId = some r → r.status = .confirmed → f 1 = false → f 2 = false) := by
    have hclean : OnFailure matchId w (FailsClean (α := Unit) matchId w) := onFailure_failsClean
    unfold AdminOverrideService.deleteMatch
    rw [clean_throwIf hclean, not_not]
    refine imp_congr_right fun _ => ?_
    rw [clean_first hclean (by simp) rfl]
    refine imp_congr_right fun _ => ?_
    rw [clean_found hclean]
    refine forall₂_congr fun r hrow => ?_
    unfold AdminOverrideService.recordDelete
    by_cases hconfirmed : r.status = .confirmed
    · have hlost : ¬ Kept matchId w (w.takeAuditId.appendAuditLog (w.newAuditLog
          (AdminOverrideService.deleteAuditData ⟨r, some (w.roster matchId)⟩ matchId userId))) :=
        fun hkept => absurd (congrArg List.length hkept.auditLogs) (by
          simp [appendAuditLog, takeAuditId])
      rw [if_pos hconfirmed, Prog.bind_assoc, clean_first hclean (by simp) rfl]
      refine Iff.trans (imp_congr_right fun _ => ?_) (imp_iff_right hconfirmed).symm
      rw [pure_eq, pure_bind_eq, ← bind_pure (await (.delete matchId)),
        clean_late hclean (by simp) rfl hlost]
      exact and_iff_left (failsClean_ok _)
    · rw [if_neg hconfirmed, pure_eq, pure_bind_eq, ← bind_pure (await (.delete matchId)),
        clean_first hclean (by simp) rfl]
      exact iff_of_true (fun _ => failsClean_ok _) fun h => absurd h hconfirmed
  rw [hruns, DeleteMatchLate, goesThrough_succ, goesThrough_zero]
  grind

/-- The postcondition of the `try` block of `confirm`: after a value the release must not fail,
unless nothing was written. -/
def SectionClean (matchId : MatchId) (w : World) (f : Nat → Bool)
    (out : Outcome Call Failure Session World α) : Prop :=
  match out.result with
  | .ok _ => f out.calls.length = true → Kept matchId w out.world
  | .error _ => Kept matchId w out.world

/-- The `catch` and `finally` blocks of `confirm` write nothing. -/
theorem clean_catchFinally {body : Api α} :
    (catchFinally body
      (fun err => do
        await .rollbackTransaction
        Prog.throw err)
      (await .release)).after system (failsAt f) calls s w' (FailsClean matchId w) ↔
        body.after system (failsAt f) calls s w' (SectionClean matchId w f) := by
  have hclean : OnFailure matchId w (FailsClean (α := α) matchId w) := onFailure_failsClean
  -- However the exception came about, the release hands it on or replaces it.
  have hend : ∀ failure calls s₁ w₁,
      (do
        await .release
        resume (.error failure : Except Failure α)).after system (failsAt f) calls s₁ w₁
          (FailsClean matchId w) ↔ Kept matchId w w₁ := by
    intro failure calls s₁ w₁
    rw [clean_call hclean (by simp) rfl, after_resume, hclean]
    cases f calls.length <;> simp
  rw [after_catchFinally]
  refine after_congr fun out => ?_
  obtain ⟨result, calls, s₁, w₁⟩ := out
  cases result with
  | ok value =>
      rw [after_pure, clean_call hclean (by simp) rfl, after_resume]
      exact and_iff_left fun _ => failsClean_ok value
  | error failure =>
      rw [after_await (by simp)]
      show _ ↔ Kept matchId w w₁
      obtain ⟨_ | changes, locked⟩ := s₁ <;> simp only [exec, after_throw, hend] <;>
        cases f calls.length <;> simp

/-- A new vote is not kept. -/
theorem kept_votedWorld :
    Kept matchId w (w.votedWorld matchId userId) ↔ w.voteWrites matchId userId = [] := by
  unfold votedWorld voteWrites
  cases hget : w.confirmations.get (matchId, userId) with
  | some vote => exact iff_of_true (.refl matchId w) rfl
  | none =>
      refine iff_of_false (fun hkept => ?_) (by simp)
      have hvotes := votes_putConfirmation (w := w) (c := w.newConfirmation matchId userId) hget
      have hsame : (w.putConfirmation (w.newConfirmation matchId userId)).votes matchId =
          w.votes matchId := congrArg MatchView.votes hkept.view
      have hlength := congrArg List.length (hvotes.symm.trans hsame)
      rw [List.length_append] at hlength
      exact absurd hlength (Nat.succ_ne_self _)

/-- How the votes are counted, and what may fail then, when the counting is the call `counted`. -/
def CountsClean (w : World) (matchId : MatchId) (userId : UserId) (f : Nat → Bool)
    (counted : Nat) : Prop :=
  f counted = false →
    if calculateQuorum (w.roster matchId).length ≤
        ((w.votedWorld matchId userId).votes matchId).length then
      f (counted + 2) = false → f (counted + 3) = false →
        f (counted + 5) = false ∧ f (counted + 7) = false ∧ f (counted + 8) = false
    else
      f (counted + 1) = false → w.voteWrites matchId userId ≠ [] → f (counted + 2) = false

/-- The end of the locked section: a failure after the commit is late. -/
theorem countVotes_clean {r : MatchRow} (hrow : w.row matchId = some r)
    (hawait : r.status = .awaitingConfirmation) :
    (await (.findTransactionConfirmations matchId) >>= fun allConfirmations =>
      ConfirmationService.settle matchId (w.roster matchId) ⟨r, none⟩ allConfirmations).after system
        (failsAt f) calls ⟨some (w.voteWrites matchId userId), true⟩ w (SectionClean matchId w f) ↔
      CountsClean w matchId userId f calls.length := by
  have hclean : OnFailure matchId w (SectionClean (α := ConfirmationStatusResult) matchId w f) :=
    fun _ _ _ _ => Iff.rfl
  have hview : Session.view ⟨some (w.voteWrites matchId userId), true⟩ w =
      w.votedWorld matchId userId := rfl
  rw [clean_first hclean (by simp) rfl, hview]
  refine imp_congr_right fun _ => ?_
  unfold ConfirmationService.settle
  split
  · next hquorum =>
      unfold ConfirmationService.confirmMatch
      rw [Prog.bind_assoc, after_now, Prog.bind_assoc, clean_first hclean (by simp) rfl]
      refine imp_congr_right fun _ => ?_
      rw [Prog.bind_assoc, clean_first hclean (by simp) rfl]
      refine imp_congr_right fun _ => ?_
      have hlost : ¬ Kept matchId w (Session.view ⟨some (w.voteWrites matchId userId ++
          [.saveMatch ⟨r.confirmedAtTime w.clock, none⟩]), true⟩ w) := by
        rw [Session.view_some, List.foldl_append]
        exact not_kept_saveMatch hrow (show r.id = matchId from id_of_row hrow)
          (by rw [hawait]; nofun) _
      rw [Prog.bind_assoc, after_now, Prog.bind_assoc]
      refine (clean_late hclean (by simp) rfl hlost).trans (and_congr_right fun _ => ?_)
      rw [Prog.bind_assoc, after_now]
      refine (clean_late hclean (by simp) rfl fun h => hlost (kept_enqueue.mp h)).trans
        (and_congr_right fun _ => ?_)
      rw [pure_eq, after_pure, SectionClean]
      dsimp only
      rw [kept_enqueue, kept_enqueue]
      exact fails_imp_iff hlost
  · next hquorum =>
      rw [clean_first hclean (by simp) rfl]
      refine imp_congr_right fun _ => ?_
      show (f (calls.length + 2) = true → Kept matchId w (w.votedWorld matchId userId)) ↔ _
      rw [kept_votedWorld]
      cases f (calls.length + 2) <;> simp

/-- `confirm` writes a new vote or none. -/
theorem voteWrites_cases (w : World) (matchId : MatchId) (userId : UserId) :
    w.voteWrites matchId userId = [] ∨
      w.voteWrites matchId userId = [.putConfirmation (w.newConfirmation matchId userId)] := by
  unfold voteWrites
  cases w.confirmations.get (matchId, userId) with
  | some vote => exact .inl rfl
  | none => exact .inr rfl

/-- The call that writes the vote, unless it is stored. -/
def voteCalls (w : World) (matchId : MatchId) (userId : UserId) : List Call :=
  (w.voteWrites matchId userId).map fun _ => .saveConfirmation matchId userId

/-- The vote is written before anything is committed. -/
theorem clean_saveVote {Q : Outcome Call Failure Session World α → Prop}
    (hQ : OnFailure matchId w Q) {next : Unit → Api α} :
    (ConfirmationService.saveVote matchId userId (w.confirmations.get (matchId, userId)) >>=
      next).after system (failsAt f) calls ⟨some [], true⟩ w Q ↔
      ((w.voteWrites matchId userId ≠ [] → f calls.length = false) →
        (next ()).after system (failsAt f) (voteCalls w matchId userId ++ calls)
          ⟨some (w.voteWrites matchId userId), true⟩ w Q) := by
  unfold ConfirmationService.saveVote voteCalls voteWrites
  cases hget : w.confirmations.get (matchId, userId) with
  | some vote => exact (imp_iff_right fun h => absurd rfl h).symm
  | none =>
      refine Iff.trans ?_ (imp_congr_left (imp_iff_right (List.cons_ne_nil _ _))).symm
      dsimp only
      rw [Prog.bind_assoc, clean_first hQ (by simp) rfl]
      exact Iff.rfl

/-- `confirm` loses nothing unless it fails late. -/
theorem confirm_clean_iff :
    (ConfirmationService.confirm matchId userId).after system (failsAt f) [] {} w
      (FailsClean matchId w) ↔ ¬ ConfirmLate w matchId userId f := by
  have hruns : (ConfirmationService.confirm matchId userId).after system (failsAt f) [] {} w
      (FailsClean matchId w) ↔ (f 0 = false → ∀ r, w.row matchId = some r →
        r.status = .awaitingConfirmation → f 1 = false →
          IsPlayer ((w.roster matchId).map (·.userId)) userId → f 2 = false → f 3 = false →
            f 4 = false → f 5 = false → (w.voteWrites matchId userId ≠ [] → f 6 = false) →
              CountsClean w matchId userId f (6 + (w.voteWrites matchId userId).length)) := by
    have hclean : OnFailure matchId w (FailsClean (α := ConfirmationStatusResult) matchId w) :=
      onFailure_failsClean
    unfold ConfirmationService.confirm
    rw [clean_first hclean (by simp) rfl]
    refine imp_congr_right fun _ => ?_
    rw [clean_found hclean]
    refine forall₂_congr fun r hrow => ?_
    rw [clean_throwIf hclean, not_not]
    refine imp_congr_right fun hawait => ?_
    rw [clean_first hclean (by simp) rfl]
    refine imp_congr_right fun _ => ?_
    rw [clean_throwIf hclean, not_not]
    refine imp_congr_right fun _ => ?_
    rw [clean_first hclean (by simp) rfl]
    refine imp_congr_right fun _ => ?_
    rw [clean_first hclean (by simp) rfl]
    refine imp_congr_right fun _ => ?_
    rw [clean_catchFinally]
    have hsection : OnFailure matchId w
        (SectionClean (α := ConfirmationStatusResult) matchId w f) := fun _ _ _ _ => Iff.rfl
    unfold ConfirmationService.lockedSection
    rw [clean_first hsection (by simp) rfl]
    refine imp_congr_right fun _ => ?_
    rw [Session.view_some, List.foldl_nil, hrow, Option.map_some, Option.filter_some]
    rw [if_pos (decide_eq_true hawait)]
    unfold ConfirmationService.castVote
    rw [clean_first hsection (by simp) rfl]
    refine imp_congr_right fun _ => ?_
    rw [Session.view_some, List.foldl_nil, clean_saveVote hsection]
    refine imp_congr_right fun _ => ?_
    rw [countVotes_clean hrow hawait, voteCalls, List.length_append, List.length_map, Nat.add_comm]
    exact Iff.rfl
  rw [hruns, ConfirmLate]
  dsimp only
  unfold CountsClean
  -- The number of calls before the counting depends on whether the caller has voted.
  rcases voteWrites_cases w matchId userId with hnone | hnew
  · rw [hnone]
    simp only [List.length_nil, goesThrough_succ, goesThrough_zero]
    grind
  · rw [hnew]
    simp only [List.length_singleton, goesThrough_succ, goesThrough_zero]
    grind

/-- An operation that ends in an exception has kept the match, its roster, its votes and the audit
log, exactly when no call fails after the operation's first write. -/
theorem failed_operation_keeps_match_iff (operation : Operation) (matchId : MatchId) (w : World)
    (f : Nat → Bool) :
    (∀ failure, ((operation.prog matchId).eval system (failsAt f) [] {} w).result =
        .error failure →
      ((operation.prog matchId).eval system (failsAt f) [] {} w).world.matchView matchId =
          w.matchView matchId ∧
        ((operation.prog matchId).eval system (failsAt f) [] {} w).world.auditLogs =
          w.auditLogs) ↔ ¬ operation.Late w matchId f := by
  have hkept : ∀ w', Kept matchId w w' ↔
      w'.matchView matchId = w.matchView matchId ∧ w'.auditLogs = w.auditLogs := fun w' =>
    ⟨fun h => ⟨h.view, h.auditLogs⟩, fun h => ⟨h.1, h.2⟩⟩
  have hclean : (operation.prog matchId).after system (failsAt f) [] {} w (FailsClean matchId w) ↔
      ¬ operation.Late w matchId f := by
    cases operation with
    | addPlayers userId dto => exact clean_void.trans (addPlayers_clean_iff dto)
    | submitResult userId dto => exact clean_void.trans (submitResult_clean_iff dto)
    | cancel userId => exact clean_void.trans cancel_clean_iff
    | confirm userId => exact clean_void.trans confirm_clean_iff
    | deleteMatch actorId isAdmin => exact deleteMatch_clean_iff isAdmin
  rw [← hclean]
  unfold after FailsClean
  rw [← hkept, forall_exists_index]

/-- `mario` cancels a submitted result, and the queue does not take the event: the match is back in
play although the request has failed. -/
theorem not_failed_operation_keeps_match_cancel :
    ¬ ∀ (operation : Operation) (matchId : MatchId) (w : World) (f : Nat → Bool) (failure : Failure),
      ((operation.prog matchId).eval system (failsAt f) [] {} w).result = .error failure →
        ((operation.prog matchId).eval system (failsAt f) [] {} w).world.matchView matchId =
            w.matchView matchId ∧
          ((operation.prog matchId).eval system (failsAt f) [] {} w).world.auditLogs =
            w.auditLogs := by
  intro h
  obtain ⟨hview, -⟩ := h (.cancel 1) 1 ((World.withUsers signedIn).run duel) (· = 4) .unavailable
    (by decide)
  have hstatus := congrArg (fun v : MatchView => v.row.map (·.status)) hview
  revert hstatus
  decide

end FoosballApi.Matches
