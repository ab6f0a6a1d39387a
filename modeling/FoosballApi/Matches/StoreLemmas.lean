import FoosballApi.Matches.Store

/-!
# What each statement does to a match

A match is seen through `World.matchView`: its row, its roster and its votes. For every statement
of `Store.lean` the lemmas below give the view of the match it concerns and say that the views of
all other matches stay as they are. `SameTables` is the relation between two worlds that differ
at most in the audit log, the queues, the counters and the clock.
-/

namespace FoosballApi.Matches

open Data Events

/-- One match: its row, its roster and its votes. -/
@[ext] structure MatchView where
  row : Option MatchRow
  roster : List MatchPlayerEntity
  votes : List MatchConfirmationEntity

/-- The view of a match that is not stored. -/
def MatchView.absent : MatchView := ⟨none, [], []⟩

/-- The users among the players of a match. -/
def MatchView.users (v : MatchView) : List UserId := v.roster.map (·.userId)

/-- The users who have voted. -/
def MatchView.voters (v : MatchView) : List UserId := v.votes.map (·.userId)

namespace World

/-- A match as a world stores it. -/
def matchView (w : World) (matchId : MatchId) : MatchView :=
  ⟨w.row matchId, w.roster matchId, w.votes matchId⟩

@[simp] theorem row_matchView (w : World) (matchId : MatchId) :
    (w.matchView matchId).row = w.row matchId := rfl

@[simp] theorem roster_matchView (w : World) (matchId : MatchId) :
    (w.matchView matchId).roster = w.roster matchId := rfl

@[simp] theorem votes_matchView (w : World) (matchId : MatchId) :
    (w.matchView matchId).votes = w.votes matchId := rfl

/-- The match tables and the users of two worlds are the same. -/
structure SameTables (w w' : World) : Prop where
  users : w'.users = w.users
  matchRows : w'.matchRows = w.matchRows
  players : w'.players = w.players
  confirmations : w'.confirmations = w.confirmations

namespace SameTables

theorem refl (w : World) : SameTables w w := ⟨rfl, rfl, rfl, rfl⟩

theorem trans {w₁ w₂ w₃ : World} (h : SameTables w₁ w₂) (h' : SameTables w₂ w₃) :
    SameTables w₁ w₃ :=
  ⟨h'.users.trans h.users, h'.matchRows.trans h.matchRows, h'.players.trans h.players,
    h'.confirmations.trans h.confirmations⟩

theorem symm {w w' : World} (h : SameTables w w') : SameTables w' w :=
  ⟨h.users.symm, h.matchRows.symm, h.players.symm, h.confirmations.symm⟩

variable {w w' : World}

theorem row (h : SameTables w w') (matchId : MatchId) : w'.row matchId = w.row matchId := by
  rw [World.row, h.matchRows, World.row]

theorem roster (h : SameTables w w') (matchId : MatchId) :
    w'.roster matchId = w.roster matchId := by
  rw [World.roster, h.players, World.roster]

theorem votes (h : SameTables w w') (matchId : MatchId) : w'.votes matchId = w.votes matchId := by
  rw [World.votes, h.confirmations, World.votes]

theorem matchView (h : SameTables w w') (matchId : MatchId) :
    w'.matchView matchId = w.matchView matchId := by
  rw [World.matchView, h.row, h.roster, h.votes, World.matchView]

end SameTables

/-! ## Lookups -/

variable {w : World} {matchId : MatchId}

theorem id_of_row {r : MatchRow} (h : w.row matchId = some r) : r.id = matchId :=
  Table.key_of_get h

theorem mem_roster {p : MatchPlayerEntity} :
    p ∈ w.roster matchId ↔ p ∈ w.players ∧ p.matchId = matchId := by
  simp [roster]

theorem mem_votes {c : MatchConfirmationEntity} :
    c ∈ w.votes matchId ↔ c ∈ w.confirmations ∧ c.matchId = matchId := by
  simp [votes]

/-- The players of a match are different users. -/
theorem roster_users_nodup (w : World) (matchId : MatchId) :
    ((w.roster matchId).map (·.userId)).Nodup := by
  have hkeys := w.players.sel_keys_nodup (·.matchId = matchId)
  refine (List.nodup_map_iff_inj_on (hkeys.of_map _)).mpr fun p hp q hq huser => ?_
  refine List.inj_on_of_nodup_map hkeys hp hq ?_
  simp only [Table.mem_sel, decide_eq_true_eq] at hp hq
  rw [MatchPlayerEntity.key, MatchPlayerEntity.key, hp.2, hq.2, huser]

/-- The voters of a match are different users. -/
theorem votes_users_nodup (w : World) (matchId : MatchId) :
    ((w.votes matchId).map (·.userId)).Nodup := by
  have hkeys := w.confirmations.sel_keys_nodup (·.matchId = matchId)
  refine (List.nodup_map_iff_inj_on (hkeys.of_map _)).mpr fun c hc d hd huser => ?_
  refine List.inj_on_of_nodup_map hkeys hc hd ?_
  simp only [Table.mem_sel, decide_eq_true_eq] at hc hd
  rw [MatchConfirmationEntity.key, MatchConfirmationEntity.key, hc.2, hd.2, huser]

/-! ## `save(match)` -/

/-- Saving a stored match writes its columns; only `updated_at` is the database's own. -/
theorem row_saveMatch {m : MatchEntity} {r : MatchRow} (hstored : w.row m.id = some r) :
    ∃ t, (w.saveMatch m).row m.id = some { m.toMatchRow with updatedAt := t } := by
  unfold saveMatch
  rw [hstored]
  by_cases hsame : r = m.toMatchRow
  · subst hsame
    exact ⟨m.updatedAt, by simpa using hstored⟩
  · refine ⟨w.savedAt r m, ?_⟩
    simp only [hsame, ↓reduceIte, row]
    exact Table.get_put_self w.matchRows { m.toMatchRow with updatedAt := w.savedAt r m }

/-- Saving a stored match whose other columns have changed writes them, with the time. -/
theorem saveMatch_of_ne {m : MatchEntity} {r : MatchRow} (hstored : w.row m.id = some r)
    (hupdatedAt : r.updatedAt = m.updatedAt) (hchanged : r ≠ m.toMatchRow) :
    w.saveMatch m =
      { w with matchRows := w.matchRows.put { m.toMatchRow with updatedAt := w.clock } } := by
  unfold saveMatch
  rw [hstored]
  simp [hchanged, savedAt, hupdatedAt]

/-- Saving a match that is not stored inserts it as it is in memory. -/
theorem row_saveMatch_of_none {m : MatchEntity} (habsent : w.row m.id = none) :
    (w.saveMatch m).row m.id = some m.toMatchRow := by
  unfold saveMatch
  rw [habsent]
  exact Table.get_put_self w.matchRows m.toMatchRow

/-- Saving a match leaves the rows of other matches. -/
theorem row_saveMatch_of_ne {m : MatchEntity} (hne : matchId ≠ m.id) :
    (w.saveMatch m).row matchId = w.row matchId := by
  unfold saveMatch
  split
  · split
    · rfl
    · exact Table.get_put_of_ne w.matchRows hne
  · exact Table.get_put_of_ne w.matchRows hne

/-- Saving a match touches no table but `matches` and `match_players`. -/
theorem saveMatch_eq (w : World) (m : MatchEntity) :
    w.saveMatch m =
      { w with matchRows := (w.saveMatch m).matchRows, players := (w.saveMatch m).players } := by
  unfold saveMatch
  split
  · split <;> rfl
  · rfl

@[simp] theorem confirmations_saveMatch (m : MatchEntity) :
    (w.saveMatch m).confirmations = w.confirmations := by rw [saveMatch_eq]

@[simp] theorem users_saveMatch (m : MatchEntity) : (w.saveMatch m).users = w.users := by
  rw [saveMatch_eq]

@[simp] theorem clock_saveMatch (m : MatchEntity) : (w.saveMatch m).clock = w.clock := by
  rw [saveMatch_eq]

@[simp] theorem nextMatchId_saveMatch (m : MatchEntity) :
    (w.saveMatch m).nextMatchId = w.nextMatchId := by rw [saveMatch_eq]

@[simp] theorem auditLogs_saveMatch (m : MatchEntity) :
    (w.saveMatch m).auditLogs = w.auditLogs := by rw [saveMatch_eq]

@[simp] theorem votes_saveMatch (m : MatchEntity) (matchId : MatchId) :
    (w.saveMatch m).votes matchId = w.votes matchId := by
  rw [votes, confirmations_saveMatch, votes]

/-- Saving a stored match does not touch the players. -/
theorem players_saveMatch {m : MatchEntity} {r : MatchRow} (hstored : w.row m.id = some r) :
    (w.saveMatch m).players = w.players := by
  unfold saveMatch
  rw [hstored]
  by_cases hsame : r = m.toMatchRow <;> simp [hsame]

/-- Saving a match that is not stored writes the players loaded with it. -/
theorem players_saveMatch_of_none {m : MatchEntity} (habsent : w.row m.id = none) :
    (w.saveMatch m).players = w.players.putAll (m.players.getD []) := by
  unfold saveMatch
  rw [habsent]

/-- The view of a stored match after `save(match)`. -/
theorem matchView_saveMatch {m : MatchEntity} {r : MatchRow} (hid : m.id = matchId)
    (hstored : w.row matchId = some r) :
    ∃ t, (w.saveMatch m).matchView matchId =
      ⟨some { m.toMatchRow with updatedAt := t }, w.roster matchId, w.votes matchId⟩ := by
  subst hid
  obtain ⟨t, hrow⟩ := row_saveMatch hstored
  refine ⟨t, MatchView.ext hrow ?_ (votes_saveMatch m m.id)⟩
  simp only [roster_matchView, roster, players_saveMatch hstored]

/-- `save(match)` leaves other matches, when the loaded players belong to the match. -/
theorem matchView_saveMatch_of_ne {m : MatchEntity} (hne : matchId ≠ m.id)
    (hplayers : w.row m.id = none → ∀ p ∈ m.players.getD [], p.matchId = m.id) :
    (w.saveMatch m).matchView matchId = w.matchView matchId := by
  refine MatchView.ext (row_saveMatch_of_ne hne) ?_ (votes_saveMatch m matchId)
  simp only [roster_matchView, roster]
  cases hrow : w.row m.id with
  | some r => rw [players_saveMatch hrow]
  | none =>
      rw [players_saveMatch_of_none hrow]
      refine Table.sel_putAll_of_false (fun p q hkey => ?_) fun p hp => ?_
      · rw [(Prod.mk.inj hkey).1]
      · simpa [hplayers hrow p hp] using Ne.symm hne

/-- A saved match is stored, with the columns of the entity. -/
theorem row_saveMatch_self (m : MatchEntity) :
    ∃ t, (w.saveMatch m).row m.id = some { m.toMatchRow with updatedAt := t } := by
  cases hrow : w.row m.id with
  | some r => exact row_saveMatch hrow
  | none => exact ⟨m.updatedAt, row_saveMatch_of_none hrow⟩

/-- `save(match)` takes no player out of a match. -/
theorem roster_saveMatch_users (m : MatchEntity) {p : MatchPlayerEntity}
    (hp : p ∈ w.roster matchId) : ∃ q ∈ (w.saveMatch m).roster matchId, q.userId = p.userId := by
  obtain ⟨hmem, hid⟩ := mem_roster.mp hp
  cases hrow : w.row m.id with
  | some r => exact ⟨p, mem_roster.mpr ⟨players_saveMatch hrow ▸ hmem, hid⟩, rfl⟩
  | none =>
      have hkept : ∃ q ∈ w.players.putAll (m.players.getD []), q.key = p.key :=
        Table.key_mem_putAll hmem
      obtain ⟨q, hq, hkey⟩ := hkept
      have hids := Prod.mk.inj hkey
      refine ⟨q, mem_roster.mpr ⟨?_, hids.1.trans hid⟩, hids.2⟩
      rwa [players_saveMatch_of_none hrow]

/-! ## Inserting and deleting a match -/

/-- The view of a new match. -/
theorem matchView_insertMatch {r : MatchRow} :
    (w.insertMatch r).matchView r.id = { w.matchView r.id with row := some r } :=
  MatchView.ext (Table.get_put_self w.matchRows r) rfl rfl

/-- A new match leaves the others. -/
theorem matchView_insertMatch_of_ne {r : MatchRow} (hne : matchId ≠ r.id) :
    (w.insertMatch r).matchView matchId = w.matchView matchId :=
  MatchView.ext (Table.get_put_of_ne w.matchRows hne) rfl rfl

/-- A deleted match is gone with its players and its votes. -/
theorem matchView_deleteMatch (w : World) (matchId : MatchId) :
    (w.deleteMatch matchId).matchView matchId = .absent := by
  refine MatchView.ext ?_ ?_ ?_
  · show (w.matchRows.keep (·.id ≠ matchId)).get matchId = none
    rw [Table.get_keep, Option.filter_eq_none_iff]
    intro r hr
    simp [Table.key_of_get hr]
  · show (w.players.keep (·.matchId ≠ matchId)).sel (·.matchId = matchId) = []
    rw [Table.sel_keep]
    exact Table.sel_eq_nil fun p _ => by simp
  · show (w.confirmations.keep (·.matchId ≠ matchId)).sel (·.matchId = matchId) = []
    rw [Table.sel_keep]
    exact Table.sel_eq_nil fun c _ => by simp

/-- Deleting a match leaves the others. -/
theorem matchView_deleteMatch_of_ne {other : MatchId} (hne : other ≠ matchId) :
    (w.deleteMatch matchId).matchView other = w.matchView other := by
  refine MatchView.ext ?_ ?_ ?_
  · show (w.matchRows.keep (·.id ≠ matchId)).get other = w.matchRows.get other
    rw [Table.get_keep]
    cases hr : w.matchRows.get other with
    | none => rfl
    | some r => simp [Table.key_of_get hr, hne]
  · show (w.players.keep (·.matchId ≠ matchId)).sel (·.matchId = other) = _
    rw [Table.sel_keep]
    exact Table.sel_congr fun p _ => by by_cases hp : p.matchId = other <;> simp [hp, hne]
  · show (w.confirmations.keep (·.matchId ≠ matchId)).sel (·.matchId = other) = _
    rw [Table.sel_keep]
    exact Table.sel_congr fun c _ => by by_cases hc : c.matchId = other <;> simp [hc, hne]

/-! ## Votes -/

/-- A user has a stored vote exactly when a vote of the match is theirs. -/
theorem get_confirmation_eq_none {userId : UserId} :
    w.confirmations.get (matchId, userId) = none ↔
      userId ∉ (w.votes matchId).map (·.userId) := by
  simp only [Table.get_eq_none, List.mem_map, mem_votes, not_exists, not_and]
  constructor
  · intro h c hc huser
    exact h c hc.1 (Prod.ext hc.2 huser)
  · intro h c hc hkey
    exact h c ⟨hc, congrArg Prod.fst hkey⟩ (congrArg Prod.snd hkey)

/-- A vote that is not stored is added at the end. -/
theorem votes_putConfirmation {c : MatchConfirmationEntity}
    (hnew : w.confirmations.get c.key = none) :
    (w.putConfirmation c).votes c.matchId = w.votes c.matchId ++ [c] := by
  simp [votes, putConfirmation, Table.sel_put_of_get_none hnew]

/-- A vote on one match leaves the other matches. -/
theorem matchView_putConfirmation_of_ne {c : MatchConfirmationEntity} (hne : matchId ≠ c.matchId) :
    (w.putConfirmation c).matchView matchId = w.matchView matchId := by
  refine MatchView.ext rfl rfl ?_
  refine Table.sel_put_of_false (by simpa using Ne.symm hne) fun old hold => ?_
  have hkey : old.key = c.key := Table.key_of_get hold
  simpa [(Prod.mk.inj hkey).1] using Ne.symm hne

/-- Deleting the votes of a match. -/
theorem matchView_deleteAllConfirmations (w : World) (matchId : MatchId) :
    (w.deleteAllConfirmations matchId).matchView matchId =
      { w.matchView matchId with votes := [] } := by
  refine MatchView.ext rfl rfl ?_
  show (w.confirmations.keep (·.matchId ≠ matchId)).sel (·.matchId = matchId) = []
  rw [Table.sel_keep]
  exact Table.sel_eq_nil fun c _ => by simp

/-- Deleting the votes of a match leaves the other matches. -/
theorem matchView_deleteAllConfirmations_of_ne {other : MatchId} (hne : other ≠ matchId) :
    (w.deleteAllConfirmations matchId).matchView other = w.matchView other := by
  refine MatchView.ext rfl rfl ?_
  show (w.confirmations.keep (·.matchId ≠ matchId)).sel (·.matchId = other) = _
  rw [Table.sel_keep]
  exact Table.sel_congr fun c _ => by by_cases hc : c.matchId = other <;> simp [hc, hne]

/-! ## `save(players)` -/

/-- No two rows take the same slot of a team. -/
def SlotsUnique (ps : List MatchPlayerEntity) : Prop :=
  ∀ p ∈ ps, ∀ q ∈ ps, sameSlot p q → p = q

/-- A write that fits keeps the slots of a roster unique. -/
theorem SlotsUnique.put {table : Table MatchPlayerEntity.key} {p : MatchPlayerEntity}
    (h : SlotsUnique (table.sel (·.matchId = matchId))) (hfits : w.playerFits table p) :
    SlotsUnique ((table.put p).sel (·.matchId = matchId)) := by
  obtain ⟨_, _, _, _, hfree⟩ := hfits
  intro q hq q' hq' hsame
  simp only [Table.mem_sel, Table.mem_put, decide_eq_true_eq] at hq hq'
  obtain ⟨rfl | ⟨hq, hkey⟩, hid⟩ := hq <;> obtain ⟨rfl | ⟨hq', hkey'⟩, hid'⟩ := hq'
  · rfl
  · exact absurd ⟨hsame.1.symm, hsame.2.1.symm, hsame.2.2.symm⟩ (hfree q' hq' hkey')
  · exact absurd hsame (hfree q hq hkey)
  · exact h q (by simp [hq, hid]) q' (by simp [hq', hid']) hsame

/-- An accepted insert or update is a write of the row, which fits. -/
theorem insertPlayer_eq_some {table table' : Table MatchPlayerEntity.key} {p : MatchPlayerEntity}
    (h : w.insertPlayer table p = some table') : table' = table.put p ∧ w.playerFits table p := by
  unfold insertPlayer at h
  split at h
  · next hfits => exact ⟨(Option.some.inj h).symm, hfits.2⟩
  · cases h

theorem updatePlayer_eq_some {table table' : Table MatchPlayerEntity.key} {p : MatchPlayerEntity}
    (h : w.updatePlayer table p = some table') : table' = table.put p ∧ w.playerFits table p := by
  unfold updatePlayer at h
  split at h
  · next hfits => exact ⟨(Option.some.inj h).symm, hfits⟩
  · cases h

/-- A sequence of accepted writes writes all its rows; what one fitting write keeps, all keep. -/
theorem foldlM_write {f : Table MatchPlayerEntity.key → MatchPlayerEntity →
      Option (Table MatchPlayerEntity.key)}
    (hf : ∀ {table p table'}, f table p = some table' →
      table' = table.put p ∧ w.playerFits table p)
    {P : Table MatchPlayerEntity.key → Prop} {ps : List MatchPlayerEntity}
    (hP : ∀ table, ∀ p ∈ ps, P table → w.playerFits table p → P (table.put p))
    {table table' : Table MatchPlayerEntity.key} (h : ps.foldlM f table = some table') :
    table' = table.putAll ps ∧ (P table → P table') := by
  induction ps generalizing table with
  | nil =>
      obtain rfl : table = table' := Option.some.inj h
      exact ⟨rfl, id⟩
  | cons p ps ih =>
      rw [List.foldlM_cons] at h
      obtain ⟨mid, hmid, hrest⟩ := Option.bind_eq_some_iff.mp h
      obtain ⟨rfl, hfits⟩ := hf hmid
      obtain ⟨heq, hkeep⟩ := ih (fun t q hq => hP t q (List.mem_cons_of_mem _ hq)) hrest
      exact ⟨heq, fun ht => hkeep (hP table p List.mem_cons_self ht hfits)⟩

theorem mem_writeOrder {ps : List MatchPlayerEntity} {p : MatchPlayerEntity} :
    p ∈ w.writeOrder ps ↔ p ∈ ps := by
  unfold writeOrder
  cases hget : w.players.get p.key <;> simp [hget]

/-- Every row is written once. -/
theorem length_writeOrder (w : World) (ps : List MatchPlayerEntity) :
    (w.writeOrder ps).length = ps.length := by
  have hsplit := List.length_eq_length_filter_add
    (l := ps) fun p => (w.players.get p.key).isNone
  simpa [writeOrder] using hsplit.symm

/-- An accepted `save(players)` writes all its rows, and what one fitting write keeps, it keeps. -/
theorem savePlayers_eq_some {ps : List MatchPlayerEntity} {w' : World}
    {P : Table MatchPlayerEntity.key → Prop} (h : w.savePlayers ps = some w')
    (hP : ∀ table, ∀ p ∈ ps, P table → w.playerFits table p → P (table.put p)) :
    w' = { w with players := w.players.putAll (w.writeOrder ps) } ∧ (P w.players → P w'.players) := by
  unfold savePlayers at h
  obtain ⟨inserted, hinserted, h⟩ := Option.bind_eq_some_iff.mp h
  obtain ⟨updated, hupdated, h⟩ := Option.bind_eq_some_iff.mp h
  obtain ⟨hins, hkeepIns⟩ := foldlM_write insertPlayer_eq_some
    (fun t p hp => hP t p (List.mem_of_mem_filter hp)) hinserted
  obtain ⟨hupd, hkeepUpd⟩ := foldlM_write updatePlayer_eq_some
    (fun t p hp => hP t p (List.mem_of_mem_filter hp)) hupdated
  obtain rfl : { w with players := updated } = w' := Option.some.inj h
  refine ⟨?_, fun hw => hkeepUpd (hkeepIns hw)⟩
  rw [writeOrder, Table.putAll_append, ← hins, ← hupd]

/-- The roster of a match before and after rows `ps` were written to it. -/
structure Registered (before ps after : List MatchPlayerEntity) : Prop where
  of_mem : ∀ p ∈ after, p ∈ before ∨ p ∈ ps
  users_before : ∀ p ∈ before, ∃ q ∈ after, q.userId = p.userId
  users_written : ∀ p ∈ ps, ∃ q ∈ after, q.userId = p.userId
  length_ge : before.length ≤ after.length
  length_le : after.length ≤ before.length + ps.length
  slots : SlotsUnique before → SlotsUnique after

/-- A roster that rows were written to is not empty. -/
theorem Registered.length_pos {before ps after : List MatchPlayerEntity}
    (h : Registered before ps after) (hps : ps ≠ []) : 0 < after.length := by
  obtain ⟨p, hp⟩ := List.exists_mem_of_ne_nil ps hps
  obtain ⟨q, hq, _⟩ := h.users_written p hp
  exact List.length_pos_of_mem hq

/-- The condition that selects a roster depends on the key only. -/
theorem matchId_eq_of_key (matchId : MatchId) (p q : MatchPlayerEntity) (h : p.key = q.key) :
    decide (p.matchId = matchId) = decide (q.matchId = matchId) := by
  rw [(Prod.mk.inj h).1]

/-- An accepted `save(players)` for one match registers the players. -/
theorem savePlayers_registered {ps : List MatchPlayerEntity} {w' : World}
    (h : w.savePlayers ps = some w') (hps : ∀ p ∈ ps, p.matchId = matchId) :
    Registered (w.roster matchId) ps (w'.roster matchId) := by
  obtain ⟨hw', hslots⟩ := savePlayers_eq_some
    (P := fun t => SlotsUnique (t.sel (·.matchId = matchId))) h fun _ _ _ ht hfits => ht.put hfits
  have hplayers : w'.players = w.players.putAll (w.writeOrder ps) := by rw [hw']
  have hlen := w.players.length_sel_putAll_le (w.writeOrder ps) (matchId_eq_of_key matchId)
  rw [length_writeOrder] at hlen
  constructor
  · intro p hp
    obtain ⟨hp, hid⟩ := mem_roster.mp hp
    rw [hplayers] at hp
    rcases Table.mem_of_mem_putAll hp with hold | hnew
    · exact .inl (mem_roster.mpr ⟨hold, hid⟩)
    · exact .inr (mem_writeOrder.mp hnew)
  · intro p hp
    obtain ⟨hp, hid⟩ := mem_roster.mp hp
    have hkept : ∃ q ∈ w.players.putAll (w.writeOrder ps), q.key = p.key :=
      Table.key_mem_putAll hp
    obtain ⟨q, hq, hkey⟩ := hkept
    have hids := Prod.mk.inj hkey
    exact ⟨q, mem_roster.mpr ⟨hplayers ▸ hq, hids.1.trans hid⟩, hids.2⟩
  · intro p hp
    obtain ⟨q, hq, hkey⟩ := Table.key_mem_putAll_of_mem (t := w.players)
      ((mem_writeOrder (w := w)).mpr hp)
    have hids := Prod.mk.inj hkey
    exact ⟨q, mem_roster.mpr ⟨hplayers ▸ hq, hids.1.trans (hps p hp)⟩, hids.2⟩
  · rw [roster, roster, hplayers]
    exact Table.length_sel_le_putAll _ _ (matchId_eq_of_key matchId)
  · rw [roster, roster, hplayers]
    exact hlen
  · exact hslots

/-- An accepted `save(players)` for one match leaves the others. -/
theorem matchView_savePlayers_of_ne {ps : List MatchPlayerEntity} {w' : World} {other : MatchId}
    (h : w.savePlayers ps = some w') (hps : ∀ p ∈ ps, p.matchId = matchId)
    (hne : other ≠ matchId) : w'.matchView other = w.matchView other := by
  obtain ⟨rfl, _⟩ := savePlayers_eq_some (P := fun _ => True) h fun _ _ _ _ _ => trivial
  refine MatchView.ext rfl ?_ rfl
  refine Table.sel_putAll_of_false (matchId_eq_of_key other) fun p hp => ?_
  simpa [hps p (mem_writeOrder.mp hp)] using Ne.symm hne

/-- Each row of an accepted sequence of writes fits. -/
theorem fits_of_foldlM {f : Table MatchPlayerEntity.key → MatchPlayerEntity →
      Option (Table MatchPlayerEntity.key)}
    (hf : ∀ {table p table'}, f table p = some table' →
      table' = table.put p ∧ w.playerFits table p)
    {ps : List MatchPlayerEntity} {table table' : Table MatchPlayerEntity.key}
    (h : ps.foldlM f table = some table') {p : MatchPlayerEntity} (hp : p ∈ ps) :
    ∃ mid, w.playerFits mid p := by
  induction ps generalizing table with
  | nil => cases hp
  | cons first ps ih =>
      rw [List.foldlM_cons] at h
      obtain ⟨mid, hmid, hrest⟩ := Option.bind_eq_some_iff.mp h
      rcases List.mem_cons.mp hp with rfl | hp
      · exact ⟨table, (hf hmid).2⟩
      · exact ih hrest hp

/-- Each row of an accepted `save(players)` fits. -/
theorem fits_of_savePlayers {ps : List MatchPlayerEntity} {w' : World}
    (hsaved : w.savePlayers ps = some w') {p : MatchPlayerEntity} (hp : p ∈ ps) :
    ∃ table, w.playerFits table p := by
  unfold savePlayers at hsaved
  obtain ⟨inserted, hinserted, hsaved⟩ := Option.bind_eq_some_iff.mp hsaved
  obtain ⟨updated, hupdated, -⟩ := Option.bind_eq_some_iff.mp hsaved
  rcases List.mem_append.mp (mem_writeOrder (w := w).mpr hp) with hnew | hold
  · exact fits_of_foldlM insertPlayer_eq_some hinserted hnew
  · exact fits_of_foldlM updatePlayer_eq_some hupdated hold

/-- Players are saved into stored matches only: the foreign key of their rows. -/
theorem row_of_savePlayers {ps : List MatchPlayerEntity} {w' : World}
    (hsaved : w.savePlayers ps = some w') {p : MatchPlayerEntity} (hp : p ∈ ps) :
    w.row p.matchId ≠ none := by
  obtain ⟨table, hstored, -⟩ := fits_of_savePlayers hsaved hp
  exact Option.ne_none_iff_isSome.mpr hstored

/-- Only users are saved as players. -/
theorem user_of_savePlayers {ps : List MatchPlayerEntity} {w' : World}
    (hsaved : w.savePlayers ps = some w') {p : MatchPlayerEntity} (hp : p ∈ w'.players) :
    p ∈ w.players ∨ (w.users.get p.userId).isSome := by
  obtain ⟨rfl, -⟩ := savePlayers_eq_some (P := fun _ => True) hsaved fun _ _ _ _ _ => trivial
  rcases Table.mem_of_mem_putAll hp with hold | hnew
  · exact .inl hold
  · obtain ⟨table, -, huser, -⟩ := fits_of_savePlayers hsaved (mem_writeOrder.mp hnew)
    exact .inr huser

/-- An accepted `save(players)` touches no table but `match_players`. -/
theorem savePlayers_frame {ps : List MatchPlayerEntity} {w' : World}
    (h : w.savePlayers ps = some w') : w' = { w with players := w'.players } := by
  obtain ⟨rfl, _⟩ := savePlayers_eq_some (P := fun _ => True) h fun _ _ _ _ _ => trivial
  rfl

/-! ## Statements that touch no match -/

theorem sameTables_appendAuditLog (w : World) (entry : AuditLogEntity) :
    SameTables w (w.appendAuditLog entry) := ⟨rfl, rfl, rfl, rfl⟩

theorem sameTables_takeAuditId (w : World) : SameTables w w.takeAuditId := ⟨rfl, rfl, rfl, rfl⟩

@[simp] theorem auditLogs_enqueue (w : World) (queue : Queue) (job : EventEnvelope) :
    (w.enqueue queue job).auditLogs = w.auditLogs := by
  cases queue <;> rfl

theorem sameTables_enqueue (w : World) (queue : Queue) (job : EventEnvelope) :
    SameTables w (w.enqueue queue job) := by
  cases queue <;> exact ⟨rfl, rfl, rfl, rfl⟩

/-- `save(user)` writes the user's row and nothing else. -/
theorem saveUser_eq_some {user : Users.UserEntity} {w' : World} (h : w.saveUser user = some w') :
    w' = { w with users := w.users.put user } := by
  unfold saveUser at h
  split at h
  · exact (Option.some.inj h).symm
  · cases h

/-- A change of a display name touches no table but `users`. -/
theorem renameUser_frame (w : World) (id : UserId) (displayName : String) :
    w.renameUser id displayName = { w with users := (w.renameUser id displayName).users } := by
  unfold renameUser
  split <;> rfl

end World

end FoosballApi.Matches
