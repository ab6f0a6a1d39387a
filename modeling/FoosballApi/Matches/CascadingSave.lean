import FoosballApi.Matches.Registration

/-!
# Starting a match when the save cascades

`MatchEntity.players` is declared with `cascade: true`, so `save(match)` also brings the stored
players of the match in line with the loaded array. A stored player that the array lacks is an
orphan: its `match_id` would become `NULL`, which the key column refuses, and the save throws.
`system` leaves the cascade out; here the save is a parameter, and `RejectsOrphans` is the rule
relied on. The other calls are those of `system`.

`addPlayers` inserts the players of the request and then saves the entity that it had loaded
before. For a draft without players the loaded array is empty, so every inserted player is an
orphan of that save.
-/

namespace FoosballApi.Matches

open Calls Data Prog World

/-- What `save(match)` does: its outcome and the world it leaves. -/
abbrev EntitySave := MatchEntity → World → Except Failure MatchEntity × World

/-- The stored players of a match that are missing from its loaded `players` array. -/
def World.orphans (w : World) (m : MatchEntity) : List MatchPlayerEntity :=
  match m.players with
  | some loaded => (w.roster m.id).filter fun p => p.key ∉ loaded.map (·.key)
  | none => []

/-- A save that would leave an orphan throws, and its own transaction is rolled back. -/
def RejectsOrphans (save : EntitySave) : Prop :=
  ∀ m w, w.orphans m ≠ [] → ∃ failure, save m w = (.error failure, w)

/-- The effect and result of each call, with this `save(match)`. -/
def execSaving (save : EntitySave) :
    (op : Call) → Session → World → Except Failure op.Result × Session × World
  | .save m, s, w => ((save m w).1, s, (save m w).2)
  | op, s, w => exec op s w

/-- The calls of the services with this `save(match)`. -/
def systemSaving (save : EntitySave) : System Call Call.Result Failure Session World where
  exec := execSaving save
  fault := system.fault
  held := Session.locked
  waits _ := true
  enter _ _ _ _ := .inr rfl

/-- The save of an entity whose players were loaded: the own columns and the loaded players are
written, unless a stored player is missing. -/
def cascadingSave : EntitySave := fun m w =>
  if w.orphans m = [] then
    match (w.saveMatch m).savePlayers (m.players.getD []) with
    | some w' => (.ok (savedEntity w' m), w')
    | none => (.error .constraint, w)
  else (.error .constraint, w)

theorem rejectsOrphans_cascadingSave : RejectsOrphans cascadingSave := by
  intro m w horphans
  exact ⟨.constraint, if_neg horphans⟩

/-- `addPlayers` returns, and it leaves the match playing with the requested players. -/
def StartsWithPlayers (save : EntitySave) (w : World) (matchId : MatchId) (userId : UserId)
    (dto : AddPlayersDto) : Prop :=
  (MatchService.addPlayers matchId userId dto).after (systemSaving save) noFaults [] {} w fun out =>
    (∃ m, out.result = .ok m) ∧
      (∀ p, p ∈ out.world.roster matchId ↔ p ∈ dto.players.map (·.toEntity matchId)) ∧
        (out.world.row matchId).map (·.status) = some .playing

variable {save : EntitySave} {calls : List Call} {s : Session} {w : World} {matchId : MatchId}
  {userId : UserId} {r : MatchRow} {dto : AddPlayersDto}

/-- Without faults a call is carried out. -/
@[simp] theorem perform_noFaults_saving (calls : List Call) (s : Session) (w : World) (op : Call) :
    (systemSaving save).perform (noFaults calls op) op s w = execSaving save op s w := rfl

/-- The slots of a match without players are free. -/
theorem checkSlots_nil (ps : List PlayerDto) :
    MatchService.checkSlots matchId [] ps = (.pure () : Api Unit) := by
  induction ps with
  | nil => rfl
  | cons p ps ih =>
      have htaken : slotTaken [] p = false := rfl
      simp only [MatchService.checkSlots, htaken, throwIf]
      exact ih

/-- The roster of a match without players is what a request has saved. -/
theorem roster_of_savePlayers_nil {saved : World} (hempty : w.roster matchId = [])
    (hsave : w.savePlayers (dto.players.map (·.toEntity matchId)) = some saved) :
    saved.roster matchId = dto.players.map (·.toEntity matchId) := by
  have hrows := rows_of_savePlayers hsave fun p _ hmem => by simp [hempty] at hmem
  have hkept : (dto.players.map (·.toEntity matchId)).filter (fun p => p.matchId = matchId) =
      dto.players.map (·.toEntity matchId) := by
    refine List.filter_eq_self.mpr fun p hp => ?_
    simpa using dto.matchId_rows matchId p hp
  show saved.players.rows.filter _ = _
  rw [hrows, List.filter_append, hkept]
  have hold : w.players.rows.filter (fun p => p.matchId = matchId) = [] := hempty
  rw [hold, List.nil_append]

/-- `addPlayers` of a draft without players throws from its last save: the players are stored, and
the match is still a draft. -/
theorem addPlayers_orphans (hsave : RejectsOrphans save) (hrow : w.row matchId = some r)
    (hdraft : r.status = .draft) (hempty : w.roster matchId = [])
    (hcreator : r.createdBy = some userId) (hgo : ¬ dto.Refused r []) {saved : World}
    (hsaved : w.savePlayers (dto.players.map (·.toEntity matchId)) = some saved) :
    (MatchService.addPlayers matchId userId dto).after (systemSaving save) noFaults [] {} w
      fun out => (∃ failure, out.result = .error failure) ∧ out.world = saved := by
  obtain rfl := id_of_row hrow
  have hroster := roster_of_savePlayers_nil hempty hsaved
  have hsize : ¬ matchCapacity r.matchType < dto.players.length := by
    intro hfull
    exact hgo (.inl (by simpa using hfull))
  have hplayers : 0 < (saved.roster r.id).length := by
    rw [hroster, List.length_map]
    exact dto.size_min
  have horphans : saved.orphans ⟨{ r with status := .playing }, some []⟩ ≠ [] := by
    show (saved.roster r.id).filter _ ≠ []
    rw [List.filter_eq_self.mpr fun p _ => by simp]
    exact List.ne_nil_of_length_pos hplayers
  obtain ⟨failure, hthrows⟩ := hsave _ saved horphans
  have hopen : ¬ r.status.Locked := by
    rw [hdraft]
    decide
  have hfound : w.findById r.id = some ⟨r, some []⟩ := by
    rw [World.findById, hrow, hempty]
    rfl
  simp only [MatchService.addPlayers, MatchService.findById, MatchService.checkEditable, after_bind,
    after_perform, perform_noFaults_saving, execSaving, exec, hfound, require_some, after_pure,
    pure_eq, after_throwIf, not_notCreator, hempty, List.length_nil, Nat.zero_add, checkSlots_nil,
    hsaved]
  refine ⟨fun hother => absurd hcreator hother, fun _ => ⟨fun hlocked => absurd hlocked hopen,
    fun _ => ⟨fun hfull => absurd hfull hsize, fun _ => ?_⟩⟩⟩
  simp only [MatchService.startPlaying, if_pos (And.intro hdraft hplayers), after_bind,
    after_perform, perform_noFaults_saving, execSaving, hthrows]
  exact ⟨⟨failure, rfl⟩, trivial⟩

/-- However the save is carried out, as long as it rejects orphans, `addPlayers` starts no draft
that has no players. -/
theorem never_starts_with_players (save : EntitySave) (hsave : RejectsOrphans save) (w : World)
    (matchId : MatchId) (userId : UserId) (r : MatchRow) (dto : AddPlayersDto)
    (hrow : w.row matchId = some r) (hdraft : r.status = .draft)
    (hempty : w.roster matchId = []) (hcreator : r.createdBy = some userId)
    (hgo : ¬ dto.Refused r (w.roster matchId))
    (hkeys : (w.savePlayers (dto.players.map (·.toEntity matchId))).isSome) :
    ¬ StartsWithPlayers save w matchId userId dto := by
  obtain ⟨saved, hsaved⟩ := Option.isSome_iff_exists.mp hkeys
  rw [hempty] at hgo
  obtain ⟨⟨failure, hfailed⟩, -⟩ :=
    addPlayers_orphans hsave hrow hdraft hempty hcreator hgo hsaved
  rintro ⟨⟨m, hreturned⟩, -⟩
  cases hfailed.symm.trans hreturned

/-- Both players are added to the new match. -/
theorem never_starts_with_players_bothTeams :
    ¬ StartsWithPlayers cascadingSave newDuel 1 1 bothTeams :=
  never_starts_with_players cascadingSave rejectsOrphans_cascadingSave newDuel 1 1 newDuelRow
    bothTeams (by decide) rfl (by decide) rfl (by decide) (by decide)

/-- A draft that its creator cannot fill. -/
theorem not_starts_with_players_bothTeams :
    ¬ ∀ (w : World) (matchId : MatchId) (userId : UserId) (r : MatchRow) (dto : AddPlayersDto),
      w.row matchId = some r → r.status = .draft → w.roster matchId = [] →
        r.createdBy = some userId → ¬ dto.Refused r (w.roster matchId) →
          (w.savePlayers (dto.players.map (·.toEntity matchId))).isSome →
            StartsWithPlayers cascadingSave w matchId userId dto := by
  intro h
  obtain ⟨⟨m, hreturned⟩, -⟩ := h newDuel 1 1 newDuelRow bothTeams (by decide) rfl (by decide) rfl
    (by decide) (by decide)
  have hfailed : ((MatchService.addPlayers 1 1 bothTeams).eval (systemSaving cascadingSave) noFaults
      [] {} newDuel).result = .error .constraint := by decide
  cases hfailed.symm.trans hreturned

end FoosballApi.Matches
