import FoosballApi.Matches.ServiceSpecs

/-!
# What `addPlayers` accepts and writes

`addPlayers` compares the request with the stored roster, by the number of players and by their
slots, and then hands all entries to `save`, which inserts the users that are not registered and
updates the rows of the others. It compares neither the entries with one another nor their users
with those of the roster.

`EntriesClash` is what the request must not bring about, `Refuses` what the two checks look at.
-/

namespace FoosballApi.Matches

open Calls Data Prog World

variable {calls : List Call} {s : Session} {w : World} {matchId : MatchId} {userId : UserId}
  {r : MatchRow} {dto : AddPlayersDto}

/-! ## The outcomes of a request -/

/-- A slot of the request is taken in the roster. -/
def SlotRefused (roster : List MatchPlayerEntity) (dto : AddPlayersDto) : Prop :=
  ∃ p ∈ dto.players, slotTaken roster p = true

instance (roster : List MatchPlayerEntity) (dto : AddPlayersDto) :
    Decidable (SlotRefused roster dto) := inferInstanceAs (Decidable (∃ _ ∈ _, _))

/-- A check of `addPlayers` refuses the request: the roster has no room for it, or a slot is
taken. -/
def AddPlayersDto.Refused (dto : AddPlayersDto) (r : MatchRow) (roster : List MatchPlayerEntity) :
    Prop :=
  matchCapacity r.matchType < roster.length + dto.players.length ∨ SlotRefused roster dto

instance (dto : AddPlayersDto) (r : MatchRow) (roster : List MatchPlayerEntity) :
    Decidable (dto.Refused r roster) := inferInstanceAs (Decidable (_ ∨ _))

/-- The exceptions of the two checks. -/
def AddPlayersDto.Refusal (dto : AddPlayersDto) (r : MatchRow) (roster : List MatchPlayerEntity)
    (failure : Failure) : Prop :=
  failure = .capacityExceeded r.matchType (matchCapacity r.matchType) roster.length ∨
    ∃ p ∈ dto.players, failure = .slotConflict r.id p.team p.slot

/-- `BadRequestException`. -/
def Failure.BadRequest (failure : Failure) : Prop :=
  ∃ exception : HttpException, failure = .http exception ∧ exception.status = 400

theorem AddPlayersDto.Refusal.badRequest {roster : List MatchPlayerEntity} {failure : Failure}
    (h : dto.Refusal r roster failure) : failure.BadRequest := by
  rcases h with rfl | ⟨p, -, rfl⟩
  · exact ⟨_, rfl, rfl⟩
  · exact ⟨_, rfl, rfl⟩

/-- `addPlayers` of the creator of an editable match: a check refuses the request after two reads,
or `save(players)` decides. -/
theorem addPlayers_cases {Q : Outcome Call Failure Session World MatchEntity → Prop}
    (hrow : w.row matchId = some r) (hcreator : r.createdBy = some userId)
    (hopen : ¬ r.status.Locked)
    (hrefused : ∀ failure, dto.Refused r (w.roster matchId) →
      dto.Refusal r (w.roster matchId) failure →
      Q ⟨.error failure, [.findPlayers matchId, .findById matchId], {}, w⟩)
    (hrejected : ¬ dto.Refused r (w.roster matchId) →
      w.savePlayers (dto.players.map (·.toEntity matchId)) = none →
      ∀ calls, Q ⟨.error .constraint, calls, {}, w⟩)
    (hsaved : ¬ dto.Refused r (w.roster matchId) → ∀ saved,
      w.savePlayers (dto.players.map (·.toEntity matchId)) = some saved →
      ∀ m calls, Q ⟨.ok m, calls, {}, playingWorld w saved matchId r⟩) :
    (MatchService.addPlayers matchId userId dto).after system noFaults [] {} w Q := by
  obtain rfl := id_of_row hrow
  simp only [MatchService.addPlayers, MatchService.checkEditable]
  rw [after_bind]
  refine findById_after (fun hnone => ?_) fun r' hrow' => ?_
  · cases hnone.symm.trans hrow
  obtain rfl := Option.some.inj (hrow'.symm.trans hrow)
  simp only [after_bind, after_throwIf, not_notCreator, after_perform, perform_noFaults, exec,
    Nat.not_lt]
  refine ⟨fun hother => absurd hcreator hother, fun _ => ⟨fun hlocked => absurd hlocked hopen,
    fun _ => ⟨fun hsize => hrefused _ (.inl hsize) (.inl rfl), fun hsize => ?_⟩⟩⟩
  refine checkSlots_after (fun p hp htaken => ?_) fun hfree => ?_
  · exact hrefused _ (.inr ⟨p, hp, htaken⟩) (.inr ⟨p, hp, rfl⟩)
  have hgo : ¬ dto.Refused r' (w.roster r'.id) := by
    rintro (hfull | ⟨p, hp, htaken⟩)
    · exact absurd hfull (Nat.not_lt.mpr hsize)
    · cases htaken.symm.trans (hfree p hp)
  cases hsave : w.savePlayers (dto.players.map (·.toEntity r'.id)) with
  | none => exact hrejected hgo hsave _
  | some saved =>
      dsimp only
      refine startPlaying_after fun m calls => ?_
      simp only [pure_eq, after_pure]
      exact hsaved hgo saved hsave _ calls

/-- A request that succeeds has passed all checks, and its entries are saved. -/
theorem addPlayers_accepted {m : MatchEntity}
    (haccepted : ((MatchService.addPlayers matchId userId dto).eval system noFaults [] {} w).result =
      .ok m) :
    ∃ r saved, w.row matchId = some r ∧ ¬ r.status.Locked ∧
      ¬ dto.Refused r (w.roster matchId) ∧
      w.savePlayers (dto.players.map (·.toEntity matchId)) = some saved ∧
      ((MatchService.addPlayers matchId userId dto).eval system noFaults [] {} w).world =
        playingWorld w saved matchId r := by
  have hspec : (MatchService.addPlayers matchId userId dto).after system noFaults [] {} w fun out =>
      out.result = .ok m → ∃ r saved, w.row matchId = some r ∧ ¬ r.status.Locked ∧
        ¬ dto.Refused r (w.roster matchId) ∧
        w.savePlayers (dto.players.map (·.toEntity matchId)) = some saved ∧
        out.world = playingWorld w saved matchId r := by
    by_cases hmay : ∃ r, w.row matchId = some r ∧ r.createdBy = some userId ∧ ¬ r.status.Locked
    · obtain ⟨r, hrow, hcreator, hopen⟩ := hmay
      refine addPlayers_cases hrow hcreator hopen (fun _ _ _ => nofun) (fun _ _ _ => nofun) ?_
      intro hgo saved hsave _ _ _
      exact ⟨r, saved, hrow, hopen, hgo, hsave, rfl⟩
    · refine editable_after (fun _ => nofun) fun r hrow hcreator hopen => ?_
      exact absurd ⟨r, hrow, hcreator, hopen⟩ hmay
  exact hspec haccepted

/-! ## What `save(players)` accepts -/

/-- Two entries put different users in one slot of a team. -/
def EntriesClash (rows : List MatchPlayerEntity) : Prop :=
  ∃ p ∈ rows, ∃ q ∈ rows, p.userId ≠ q.userId ∧ sameSlot p q

instance (rows : List MatchPlayerEntity) : Decidable (EntriesClash rows) :=
  inferInstanceAs (Decidable (∃ _ ∈ _, ∃ _ ∈ _, _))

/-- A sequence of writes goes through when each goes through after the ones before it. -/
theorem foldlM_putAll {f : Table MatchPlayerEntity.key → MatchPlayerEntity →
      Option (Table MatchPlayerEntity.key)}
    {table : Table MatchPlayerEntity.key} {done ps : List MatchPlayerEntity}
    (hf : ∀ before p after, before ++ p :: after = ps →
      f (table.putAll (done ++ before)) p = some ((table.putAll (done ++ before)).put p)) :
    ps.foldlM f (table.putAll done) = some (table.putAll (done ++ ps)) := by
  induction ps generalizing done with
  | nil => simp
  | cons p ps ih =>
      have hhead := hf [] p ps rfl
      rw [List.append_nil] at hhead
      have hput : (table.putAll done).put p = table.putAll (done ++ [p]) := by
        rw [Table.putAll_append, Table.putAll_cons, Table.putAll_nil]
      rw [List.foldlM_cons, hhead, hput]
      have htail : ps.foldlM f (table.putAll (done ++ [p])) =
          some (table.putAll (done ++ [p] ++ ps)) := ih fun before q after heq => by
        have h := hf (p :: before) q after (by rw [← heq, List.cons_append])
        rwa [List.append_cons] at h
      rwa [List.append_assoc, List.singleton_append] at htail

/-- A user is stored for a match exactly when the roster has them. -/
theorem get_players_eq_none :
    w.players.get (matchId, userId) = none ↔ userId ∉ (w.roster matchId).map (·.userId) := by
  rw [Table.get_eq_none]
  constructor
  · intro hnone hmem
    obtain ⟨q, hq, rfl⟩ := List.mem_map.mp hmem
    obtain ⟨hstored, rfl⟩ := mem_roster.mp hq
    exact hnone q hstored rfl
  · intro hnot q hq hkey
    obtain ⟨rfl, rfl⟩ := Prod.mk.inj hkey
    exact hnot (List.mem_map_of_mem (mem_roster.mpr ⟨hq, rfl⟩))

/-- An entry of a request without clashes fits beside other entries of the request and the stored
rows, when its slot is not taken. -/
theorem fits_putAll (hstored : (w.row matchId).isSome)
    (husers : ∀ p ∈ dto.players, (w.users.get p.userId).isSome)
    (hfree : ¬ SlotRefused (w.roster matchId) dto)
    (hclash : ¬ EntriesClash (dto.players.map (·.toEntity matchId)))
    {done : List MatchPlayerEntity} {row : MatchPlayerEntity}
    (hdone : ∀ q ∈ done, q ∈ dto.players.map (·.toEntity matchId))
    (hrow : row ∈ dto.players.map (·.toEntity matchId)) :
    w.playerFits (w.players.putAll done) row := by
  obtain ⟨p, hp, rfl⟩ := List.mem_map.mp hrow
  refine ⟨hstored, husers p hp, p.slot_min, p.slot_max, fun q hq hkey hsame => ?_⟩
  rcases Table.mem_of_mem_putAll hq with hold | hnew
  · refine hfree ⟨p, hp, ?_⟩
    have hroster : q ∈ w.roster matchId := mem_roster.mpr ⟨hold, hsame.1⟩
    refine List.any_eq_true.mpr ⟨q, hroster, ?_⟩
    simp only [Bool.and_eq_true, decide_eq_true_eq]
    exact ⟨hsame.2.1, hsame.2.2⟩
  · refine hclash ⟨q, hdone q hnew, p.toEntity matchId, hrow, fun huser => hkey ?_, hsame⟩
    exact Prod.ext (dto.matchId_rows matchId q (hdone q hnew)) huser

/-- The entries of a request that names every user once have different keys. -/
theorem toEntity_keys_nodup (matchId : MatchId) (honce : (dto.players.map (·.userId)).Nodup) :
    ((dto.players.map (·.toEntity matchId)).map (·.key)).Nodup := by
  have hmap : (dto.players.map (·.toEntity matchId)).map (·.key) =
      (dto.players.map (·.userId)).map fun userId => (matchId, userId) := by
    simp only [List.map_map]
    rfl
  rw [hmap]
  exact honce.map fun a b h => (Prod.mk.inj h).2

/-- The entries that are not stored yet are inserted. -/
theorem foldlM_insertPlayer (hstored : (w.row matchId).isSome)
    (husers : ∀ p ∈ dto.players, (w.users.get p.userId).isSome)
    (hfree : ¬ SlotRefused (w.roster matchId) dto)
    (hclash : ¬ EntriesClash (dto.players.map (·.toEntity matchId)))
    (honce : (dto.players.map (·.userId)).Nodup) :
    let new := (dto.players.map (·.toEntity matchId)).filter fun p => (w.players.get p.key).isNone
    new.foldlM w.insertPlayer w.players = some (w.players.putAll new) := by
  intro new
  have hinsert : new.foldlM w.insertPlayer (w.players.putAll []) =
      some (w.players.putAll ([] ++ new)) := by
    refine foldlM_putAll fun before p after heq => ?_
    have hnew : ∀ q ∈ before ++ p :: after, q ∈ new := fun q hq => heq ▸ hq
    have hp : p ∈ new := hnew p (List.mem_append_right _ List.mem_cons_self)
    have hbefore : ∀ q ∈ before, q ∈ dto.players.map (·.toEntity matchId) := fun q hq =>
      List.mem_of_mem_filter (hnew q (List.mem_append_left _ hq))
    have hget : (w.players.putAll before).get p.key = none := by
      refine Table.get_eq_none.mpr fun q hq hkey => ?_
      rcases Table.mem_of_mem_putAll hq with hold | hearlier
      · exact Table.get_eq_none.mp (Option.isNone_iff_eq_none.mp (List.mem_filter.mp hp).2) q hold
          hkey
      · have hdistinct : ((before ++ p :: after).map (·.key)).Nodup := by
          rw [heq]
          exact (toEntity_keys_nodup matchId honce).sublist (List.filter_sublist.map _)
        rw [List.map_append, List.nodup_append] at hdistinct
        exact hdistinct.2.2 _ (List.mem_map_of_mem hearlier) _
          (List.mem_map_of_mem List.mem_cons_self) hkey
    exact if_pos ⟨hget, fits_putAll hstored husers hfree hclash hbefore (List.mem_of_mem_filter hp)⟩
  exact hinsert

/-- The entries that are stored are updated, after others of the request were written. -/
theorem foldlM_updatePlayer (hstored : (w.row matchId).isSome)
    (husers : ∀ p ∈ dto.players, (w.users.get p.userId).isSome)
    (hfree : ¬ SlotRefused (w.roster matchId) dto)
    (hclash : ¬ EntriesClash (dto.players.map (·.toEntity matchId)))
    {new : List MatchPlayerEntity} (hnew : ∀ q ∈ new, q ∈ dto.players.map (·.toEntity matchId)) :
    let old := (dto.players.map (·.toEntity matchId)).filter fun p => (w.players.get p.key).isSome
    old.foldlM w.updatePlayer (w.players.putAll new) = some (w.players.putAll (new ++ old)) := by
  intro old
  refine foldlM_putAll fun before p after heq => ?_
  have hold : ∀ q ∈ before ++ p :: after, q ∈ old := fun q hq => heq ▸ hq
  have hp : p ∈ old := hold p (List.mem_append_right _ List.mem_cons_self)
  refine if_pos (fits_putAll hstored husers hfree hclash (fun q hq => ?_)
    (List.mem_of_mem_filter hp))
  rcases List.mem_append.mp hq with hq | hq
  · exact hnew q hq
  · exact List.mem_of_mem_filter (hold q (List.mem_append_left _ hq))

/-- The entries of a request without clashes, for existing users and slots that are not taken, are
saved. -/
theorem savePlayers_isSome (hstored : (w.row matchId).isSome)
    (husers : ∀ p ∈ dto.players, (w.users.get p.userId).isSome)
    (hfree : ¬ SlotRefused (w.roster matchId) dto)
    (hclash : ¬ EntriesClash (dto.players.map (·.toEntity matchId)))
    (honce : (dto.players.map (·.userId)).Nodup) :
    (w.savePlayers (dto.players.map (·.toEntity matchId))).isSome := by
  let rows := dto.players.map (·.toEntity matchId)
  let new := rows.filter fun p => (w.players.get p.key).isNone
  let old := rows.filter fun p => (w.players.get p.key).isSome
  have hinsert : new.foldlM w.insertPlayer w.players = some (w.players.putAll new) :=
    foldlM_insertPlayer hstored husers hfree hclash honce
  have hupdate : old.foldlM w.updatePlayer (w.players.putAll new) =
      some (w.players.putAll (new ++ old)) :=
    foldlM_updatePlayer hstored husers hfree hclash fun q hq => List.mem_of_mem_filter hq
  have hsaved : w.savePlayers rows =
      some { w with players := w.players.putAll (new ++ old) } := by
    unfold savePlayers
    rw [hinsert]
    show (old.foldlM w.updatePlayer (w.players.putAll new)).bind _ = _
    rw [hupdate]
    rfl
  show (w.savePlayers rows).isSome
  rw [hsaved]
  rfl

/-! ## Clashes -/

/-- The roster together with the request puts two users in one slot, or the request names one user
twice. -/
def AddPlayersDto.Clashes (dto : AddPlayersDto) (matchId : MatchId)
    (roster : List MatchPlayerEntity) : Prop :=
  EntriesClash (roster ++ dto.players.map (·.toEntity matchId)) ∨
    ¬ (dto.players.map (·.userId)).Nodup

instance (dto : AddPlayersDto) (matchId : MatchId) (roster : List MatchPlayerEntity) :
    Decidable (dto.Clashes matchId roster) := inferInstanceAs (Decidable (_ ∨ _))

/-- A clash is refused with a `BadRequestException` before any write, and `save(players)` breaks no
key. -/
def ClashesCaught (w : World) (matchId : MatchId) (userId : UserId) (dto : AddPlayersDto) : Prop :=
  (MatchService.addPlayers matchId userId dto).after system noFaults [] {} w fun out =>
    (dto.Clashes matchId (w.roster matchId) → ∃ failure, out.result = .error failure ∧
      failure.BadRequest ∧ out.calls = [.findPlayers matchId, .findById matchId] ∧
      out.world = w) ∧
    out.result ≠ .error .constraint

/-- A clash with a stored row is a taken slot. -/
theorem clashes_of_free (hslots : SlotsUnique (w.roster matchId))
    (hfree : ¬ SlotRefused (w.roster matchId) dto)
    (hclash : dto.Clashes matchId (w.roster matchId)) : dto.Clashes matchId [] := by
  have htaken : ∀ {q}, q ∈ w.roster matchId → ∀ {p}, p ∈ dto.players →
      ¬ sameSlot q (p.toEntity matchId) := by
    intro q hq p hp hsame
    refine hfree ⟨p, hp, List.any_eq_true.mpr ⟨q, hq, ?_⟩⟩
    simp only [Bool.and_eq_true, decide_eq_true_eq]
    exact ⟨hsame.2.1, hsame.2.2⟩
  have hswap : ∀ {p q : MatchPlayerEntity}, sameSlot p q → sameSlot q p :=
    fun hsame => ⟨hsame.1.symm, hsame.2.1.symm, hsame.2.2.symm⟩
  rcases hclash with ⟨p, hp, q, hq, hne, hsame⟩ | htwice
  · rcases List.mem_append.mp hp with hold | hnew <;>
      rcases List.mem_append.mp hq with hold' | hnew'
    · exact absurd (congrArg _ (hslots p hold q hold' hsame)) hne
    · obtain ⟨p', hp', rfl⟩ := List.mem_map.mp hnew'
      exact absurd hsame (htaken hold hp')
    · obtain ⟨p', hp', rfl⟩ := List.mem_map.mp hnew
      exact absurd (hswap hsame) (htaken hold' hp')
    · exact .inl ⟨p, hnew, q, hnew', hne, hsame⟩
  · exact .inr htwice

/-- For the creator of an editable match and existing users, all clashes are caught exactly when
the request does not clash with itself, or one of the two checks refuses it anyway. -/
theorem clashes_caught_iff (w : World) (matchId : MatchId) (r : MatchRow) (userId : UserId)
    (dto : AddPlayersDto) (hrow : w.row matchId = some r) (hcreator : r.createdBy = some userId)
    (hopen : ¬ r.status.Locked) (hslots : SlotsUnique (w.roster matchId))
    (husers : ∀ p ∈ dto.players, (w.users.get p.userId).isSome) :
    ClashesCaught w matchId userId dto ↔
      (dto.Clashes matchId [] → dto.Refused r (w.roster matchId)) := by
  by_cases hrefused : dto.Refused r (w.roster matchId)
  · refine iff_of_true ?_ fun _ => hrefused
    refine addPlayers_cases hrow hcreator hopen (fun failure _ hrefusal => ?_)
      (fun hgo => absurd hrefused hgo) fun hgo => absurd hrefused hgo
    have hbad := hrefusal.badRequest
    refine ⟨fun _ => ⟨failure, rfl, hbad, rfl, rfl⟩, fun hconstraint => ?_⟩
    obtain ⟨exception, rfl, -⟩ := hbad
    cases hconstraint
  have hfree : ¬ SlotRefused (w.roster matchId) dto := fun h => hrefused (.inr h)
  by_cases hself : dto.Clashes matchId []
  · -- Nothing refuses the request, so it ends in the constraint or is accepted.
    refine iff_of_false (fun hcaught => ?_) fun h => hrefused (h hself)
    have hclash : dto.Clashes matchId (w.roster matchId) := by
      rcases hself with ⟨p, hp, q, hq, hne, hsame⟩ | htwice
      · exact .inl ⟨p, List.mem_append_right _ hp, q, List.mem_append_right _ hq, hne, hsame⟩
      · exact .inr htwice
    have hnot : (MatchService.addPlayers matchId userId dto).after system noFaults [] {} w fun out =>
        ∀ failure, out.result = .error failure → ¬ failure.BadRequest := by
      refine addPlayers_cases hrow hcreator hopen (fun _ h => absurd h hrefused) ?_
        fun _ _ _ _ _ _ => nofun
      rintro - - _ failure hfailure ⟨exception, rfl, -⟩
      cases hfailure
    obtain ⟨failure, hresult, hbad, -⟩ := hcaught.1 hclash
    exact hnot failure hresult hbad
  · refine iff_of_true ?_ fun h => absurd h hself
    have hnone : ¬ dto.Clashes matchId (w.roster matchId) := fun h =>
      hself (clashes_of_free hslots hfree h)
    refine addPlayers_cases hrow hcreator hopen (fun _ h => absurd h hrefused) (fun _ hsave => ?_)
      fun _ _ _ _ _ => ⟨fun h => absurd h hnone, nofun⟩
    have hsome := savePlayers_isSome (by rw [hrow]; rfl) husers hfree
      (fun h => hself (.inl h)) (Decidable.not_not.mp fun h => hself (.inr h))
    rw [hsave] at hsome
    cases hsome

/-- `mario`'s new match against `rival`, without players. -/
def newDuel : World := (World.withUsers signedIn).run (duel.take 1)

/-- The row of the new match. -/
def newDuelRow : MatchRow := ⟨1, some 1, .oneVsOne, .draft, none, none, 0, 0, none, none⟩

/-- A request for both slots of the new match. -/
theorem clashes_caught_bothTeams : ClashesCaught newDuel 1 1 bothTeams :=
  (clashes_caught_iff newDuel 1 newDuelRow 1 bothTeams (by decide) rfl (by decide)
    (fun p hp => by cases hp) (by decide)).mpr fun hclash => absurd hclash (by decide)

/-- `mario` and `rival` in the same slot. -/
def oneSlot : AddPlayersDto :=
  ⟨[playerDto 1 .A 0 Nat.one_pos, playerDto 2 .A 0 Nat.two_pos], by decide, by decide⟩

/-- Two users for one slot reach the unique index. -/
theorem not_clashes_caught_oneSlot :
    ¬ ∀ (w : World) (matchId : MatchId) (r : MatchRow) (userId : UserId) (dto : AddPlayersDto),
      w.row matchId = some r → r.createdBy = some userId → ¬ r.status.Locked →
        SlotsUnique (w.roster matchId) → (∀ p ∈ dto.players, (w.users.get p.userId).isSome) →
          ClashesCaught w matchId userId dto := by
  intro h
  have hcaught := h newDuel 1 newDuelRow 1 oneSlot (by decide) rfl (by decide)
    (fun p hp => by cases hp) (by decide)
  exact hcaught.2 (by decide)

/-! ## Registered users -/

/-- Every stored player row is stored unchanged, and `count` rows are new. -/
def OnlyAdds (w w' : World) (count : Nat) : Prop :=
  (∀ p ∈ w.players, p ∈ w'.players) ∧ w'.players.rows.length = w.players.rows.length + count

/-- Inserted rows have new keys, and different ones. -/
theorem keys_of_insert {ps : List MatchPlayerEntity}
    {table table' : Table MatchPlayerEntity.key} (h : ps.foldlM w.insertPlayer table = some table') :
    (ps.map (·.key)).Nodup ∧ ∀ p ∈ ps, table.get p.key = none := by
  induction ps generalizing table with
  | nil => exact ⟨List.nodup_nil, fun p hp => nomatch hp⟩
  | cons p ps ih =>
      rw [List.foldlM_cons] at h
      obtain ⟨mid, hmid, hrest⟩ := Option.bind_eq_some_iff.mp h
      obtain ⟨hnodup, hnew⟩ := ih hrest
      have hput := (insertPlayer_eq_some hmid).1
      have hgone : table.get p.key = none := by
        unfold insertPlayer at hmid
        split at hmid
        · next hfits => exact hfits.1
        · cases hmid
      have hne : ∀ q ∈ ps, q.key ≠ p.key := by
        intro q hq hkey
        have hnone := hnew q hq
        rw [hput, hkey, Table.get_put_self] at hnone
        cases hnone
      refine ⟨List.nodup_cons.mpr ⟨fun hmem => ?_, hnodup⟩, fun q hq => ?_⟩
      · obtain ⟨q, hq, hkey⟩ := List.mem_map.mp hmem
        exact hne q hq hkey
      · rcases List.mem_cons.mp hq with rfl | hq
        · exact hgone
        · rw [← Table.get_put_of_ne table (hne q hq), ← hput]
          exact hnew q hq

/-- When nobody of the request is registered, all its entries are appended. -/
theorem rows_of_savePlayers {saved : World}
    (hsave : w.savePlayers (dto.players.map (·.toEntity matchId)) = some saved)
    (hnew : ∀ p ∈ dto.players, p.userId ∉ (w.roster matchId).map (·.userId)) :
    saved.players.rows = w.players.rows ++ dto.players.map (·.toEntity matchId) := by
  let rows := dto.players.map (·.toEntity matchId)
  have hnone : ∀ p ∈ rows, w.players.get p.key = none := by
    intro row hrow
    obtain ⟨p, hp, rfl⟩ := List.mem_map.mp hrow
    exact get_players_eq_none.mpr (hnew p hp)
  have hinserts : rows.filter (fun p => (w.players.get p.key).isNone) = rows := by
    refine List.filter_eq_self.mpr fun p hp => ?_
    rw [hnone p hp]
    rfl
  have hupdates : rows.filter (fun p => (w.players.get p.key).isSome) = [] := by
    refine List.filter_eq_nil_iff.mpr fun p hp => ?_
    rw [hnone p hp]
    nofun
  have horder : w.writeOrder rows = rows := by
    rw [writeOrder, hinserts, hupdates, List.append_nil]
  obtain ⟨rfl, -⟩ := savePlayers_eq_some (P := fun _ => True) hsave fun _ _ _ _ _ => trivial
  obtain ⟨inserted, hinserted, -⟩ := Option.bind_eq_some_iff.mp hsave
  have hkeys := (keys_of_insert hinserted).1
  rw [hinserts] at hkeys
  show (w.players.putAll (w.writeOrder rows)).rows = _
  rw [horder]
  exact Table.rows_putAll_of_new hnone hkeys

/-- A registered user of an accepted request loses the row they had. -/
theorem moved_of_savePlayers {saved : World}
    (hsave : w.savePlayers (dto.players.map (·.toEntity matchId)) = some saved)
    (hfree : ¬ SlotRefused (w.roster matchId) dto) {p : PlayerDto} (hp : p ∈ dto.players)
    {q : MatchPlayerEntity} (hq : q ∈ w.roster matchId) (huser : q.userId = p.userId) :
    q ∉ saved.players := by
  intro hstored
  obtain ⟨rfl, -⟩ := savePlayers_eq_some (P := fun _ => True) hsave fun _ _ _ _ _ => trivial
  have hkey : q.key = (p.toEntity matchId).key := Prod.ext (mem_roster.mp hq).2 huser
  have hwritten : q ∈ w.writeOrder (dto.players.map (·.toEntity matchId)) := by
    refine Table.mem_of_key_mem_putAll hstored ?_
    rw [hkey]
    exact List.mem_map_of_mem (mem_writeOrder.mpr (List.mem_map_of_mem hp))
  obtain ⟨p', hp', rfl⟩ := List.mem_map.mp (mem_writeOrder.mp hwritten)
  -- The row written in its place would be the row itself, whose slot is taken.
  refine hfree ⟨p', hp', List.any_eq_true.mpr ⟨_, hq, ?_⟩⟩
  simp

/-- A request that succeeds only adds its players exactly when none of them is registered. -/
theorem addPlayers_only_adds_iff (w : World) (matchId : MatchId) (userId : UserId)
    (dto : AddPlayersDto) (m : MatchEntity)
    (haccepted : ((MatchService.addPlayers matchId userId dto).eval system noFaults [] {} w).result =
      .ok m) :
    OnlyAdds w ((MatchService.addPlayers matchId userId dto).eval system noFaults [] {} w).world
        dto.players.length ↔
      ∀ p ∈ dto.players, p.userId ∉ (w.roster matchId).map (·.userId) := by
  obtain ⟨r, saved, hrow, hopen, hgo, hsave, hworld⟩ := addPlayers_accepted haccepted
  have hfree : ¬ SlotRefused (w.roster matchId) dto := fun h => hgo (.inr h)
  rw [hworld, OnlyAdds, players_playingWorld hrow hsave]
  constructor
  · rintro ⟨hkept, -⟩ p hp hmem
    obtain ⟨q, hq, huser⟩ := List.mem_map.mp hmem
    exact moved_of_savePlayers hsave hfree hp hq huser (hkept q (mem_roster.mp hq).1)
  · intro hnew
    have hrows := rows_of_savePlayers hsave hnew
    refine ⟨fun p hp => ?_, ?_⟩
    · rw [Table.mem_def, hrows]
      exact List.mem_append_left _ hp
    · rw [hrows, List.length_append, List.length_map]

/-- The new match with both players. -/
def filledDuel : MatchEntity :=
  ⟨{ newDuelRow with status := .playing },
    some [⟨1, 1, .A, 1, none⟩, ⟨1, 2, .B, 1, none⟩]⟩

/-- Both players are added to the new match. -/
theorem addPlayers_only_adds_bothTeams :
    OnlyAdds newDuel
      ((MatchService.addPlayers 1 1 bothTeams).eval system noFaults [] {} newDuel).world 2 :=
  (addPlayers_only_adds_iff newDuel 1 1 bothTeams filledDuel (by decide)).mpr (by decide)

/-- `mario` is in the first slot of a match for four. -/
def marioAlone : World :=
  (World.withUsers signedIn).run
    [ .request ⟨mario, .createMatch ⟨some .twoVsTwo⟩⟩
    , .request ⟨mario, .addPlayers 1 ⟨[playerDto 1 .A 0 Nat.one_pos], by decide, by decide⟩⟩ ]

/-- `mario` in the second slot. -/
def marioAgain : AddPlayersDto := ⟨[playerDto 1 .A 1 Nat.one_pos], by decide, by decide⟩

/-- A registered user who is added again is moved. -/
theorem not_addPlayers_only_adds_moved :
    ¬ ∀ (w : World) (matchId : MatchId) (userId : UserId) (dto : AddPlayersDto) (m : MatchEntity),
      ((MatchService.addPlayers matchId userId dto).eval system noFaults [] {} w).result = .ok m →
        OnlyAdds w ((MatchService.addPlayers matchId userId dto).eval system noFaults [] {} w).world
          dto.players.length := by
  intro h
  obtain ⟨-, hcount⟩ := h marioAlone 1 1 marioAgain
    ⟨⟨1, some 1, .twoVsTwo, .playing, none, none, 0, 0, none, none⟩, some [⟨1, 1, .A, 2, none⟩]⟩
    (by decide)
  revert hcount
  decide

/-! ## Repeated requests -/

/-- Every entry of the request is stored. -/
def AddPlayersDto.Stored (dto : AddPlayersDto) (roster : List MatchPlayerEntity) : Prop :=
  ∀ p ∈ dto.players, ∃ q ∈ roster, q.userId = p.userId ∧ q.team = p.team ∧ q.slot = p.slot

/-- The request succeeds, and leaves the roster and the status. -/
def ResendHarmless (w : World) (matchId : MatchId) (userId : UserId) (dto : AddPlayersDto) : Prop :=
  (MatchService.addPlayers matchId userId dto).after system noFaults [] {} w fun out =>
    (∃ m, out.result = .ok m) ∧ out.world.roster matchId = w.roster matchId ∧
      (out.world.row matchId).map (·.status) = (w.row matchId).map (·.status)

/-- A request that names a stored slot does not succeed. -/
theorem not_accepted_of_taken (htaken : SlotRefused (w.roster matchId) dto) (m : MatchEntity) :
    ((MatchService.addPlayers matchId userId dto).eval system noFaults [] {} w).result ≠ .ok m := by
  intro haccepted
  obtain ⟨r, saved, -, -, hgo, -⟩ := addPlayers_accepted haccepted
  exact hgo (.inr htaken)

/-- A stored entry takes its slot. -/
theorem slotRefused_of_mem {p : PlayerDto} (hp : p ∈ dto.players) {q : MatchPlayerEntity}
    (hq : q ∈ w.roster matchId) (hteam : q.team = p.team) (hslot : q.slot = p.slot) :
    SlotRefused (w.roster matchId) dto := by
  refine ⟨p, hp, List.any_eq_true.mpr ⟨q, hq, ?_⟩⟩
  simp [hteam, hslot]

/-- An accepted request stores at least one of its entries: the last row that is written stays. -/
theorem stored_of_savePlayers {saved : World}
    (hsave : w.savePlayers (dto.players.map (·.toEntity matchId)) = some saved) :
    ∃ p ∈ dto.players, p.toEntity matchId ∈ saved.roster matchId := by
  obtain ⟨rfl, -⟩ := savePlayers_eq_some (P := fun _ => True) hsave fun _ _ _ _ _ => trivial
  have hne : w.writeOrder (dto.players.map (·.toEntity matchId)) ≠ [] := by
    refine List.ne_nil_of_length_pos ?_
    rw [length_writeOrder]
    exact List.length_pos_of_ne_nil (dto.rows_ne_nil matchId)
  obtain ⟨row, hwritten, hstored⟩ := Table.exists_mem_putAll w.players hne
  obtain ⟨p, hp, rfl⟩ := List.mem_map.mp (mem_writeOrder.mp hwritten)
  exact ⟨p, hp, mem_roster.mpr ⟨hstored, rfl⟩⟩

/-- A request all of whose entries are stored never succeeds, and neither does an accepted request
that is repeated at once. -/
theorem resend_never_harmless (w : World) (matchId : MatchId) (userId : UserId)
    (dto : AddPlayersDto) :
    (dto.Stored (w.roster matchId) → ¬ ResendHarmless w matchId userId dto) ∧
      ∀ m, ((MatchService.addPlayers matchId userId dto).eval system noFaults [] {} w).result =
          .ok m →
        ¬ ResendHarmless
          ((MatchService.addPlayers matchId userId dto).eval system noFaults [] {} w).world
          matchId userId dto := by
  constructor
  · rintro hstored ⟨⟨m, haccepted⟩, -⟩
    obtain ⟨p, hp⟩ := List.exists_mem_of_length_pos dto.size_min
    obtain ⟨q, hq, -, hteam, hslot⟩ := hstored p hp
    exact not_accepted_of_taken (slotRefused_of_mem hp hq hteam hslot) m haccepted
  · intro m hfirst
    obtain ⟨r, saved, hrow, -, -, hsave, hworld⟩ := addPlayers_accepted hfirst
    rw [hworld]
    rintro ⟨⟨m', hagain⟩, -⟩
    obtain ⟨p, hp, hmem⟩ := stored_of_savePlayers hsave
    have hroster : (playingWorld w saved matchId r).roster matchId = saved.roster matchId := by
      rw [roster, players_playingWorld hrow hsave, roster]
    rw [← hroster] at hmem
    exact not_accepted_of_taken (slotRefused_of_mem hp hmem rfl rfl) m' hagain

/-- The players of the one-on-one match, registered and registered again. -/
theorem resend_never_harmless_bothTeams :
    ¬ ResendHarmless ((World.withUsers signedIn).run (duel.take 2)) 1 1 bothTeams ∧
      ¬ ResendHarmless
        ((MatchService.addPlayers 1 1 bothTeams).eval system noFaults [] {} newDuel).world
        1 1 bothTeams :=
  ⟨(resend_never_harmless _ 1 1 bothTeams).1 (by unfold AddPlayersDto.Stored; decide),
    (resend_never_harmless newDuel 1 1 bothTeams).2 filledDuel (by decide)⟩

/-- The request that filled the match, sent again, is refused. -/
theorem not_resend_harmless_bothTeams :
    ¬ ∀ (w : World) (matchId : MatchId) (r : MatchRow) (userId : UserId) (dto : AddPlayersDto),
      w.row matchId = some r → r.status = .draft ∨ r.status = .playing →
        r.createdBy = some userId → dto.Stored (w.roster matchId) →
          ResendHarmless w matchId userId dto := by
  intro h
  obtain ⟨⟨m, haccepted⟩, -⟩ := h ((World.withUsers signedIn).run (duel.take 2)) 1
    { newDuelRow with status := .playing } 1 bothTeams (by decide) (.inr rfl) rfl
    (by unfold AddPlayersDto.Stored; decide)
  have hrefused : ((MatchService.addPlayers 1 1 bothTeams).eval system noFaults [] {}
      ((World.withUsers signedIn).run (duel.take 2))).result =
        .error (.capacityExceeded .oneVsOne 2 2) := by decide
  cases hrefused.symm.trans haccepted

end FoosballApi.Matches
