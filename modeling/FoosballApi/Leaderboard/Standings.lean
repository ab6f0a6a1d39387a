import FoosballApi.Data.Parts
import FoosballApi.Leaderboard.Queries
import FoosballApi.Matches.StoreLemmas

/-!
# What a match contributes to the standings

The rows that `getUserWins` and `getPairWins` count are, up to their order, the sum of what the
single matches contribute. A match contributes rows only while it counts, and what it contributes
depends on its row, its roster and the names of its players.
-/

namespace FoosballApi.Matches.World

open Data Leaderboard Users

variable {w w' : World} {startDate : Option Date} {matchId : MatchId} {r : MatchRow}

/-- The rows of `getUserWins` from one match. -/
def userPart (w : World) (startDate : Option Date) (matchId : MatchId) :
    Multiset (UserId × String) :=
  w.matchRows.part (·.Counts startDate) w.userWinRows matchId

/-- The rows of `getPairWins` from one match. -/
def pairPart (w : World) (startDate : Option Date) (matchId : MatchId) :
    Multiset ((UserId × String) × (UserId × String)) :=
  w.matchRows.part (·.Counts startDate) w.pairWinRows matchId

/-- The two queries return the same rows over both worlds, in some order. -/
def SameStandings (startDate : Option Date) (w w' : World) : Prop :=
  (w'.userWins startDate).Perm (w.userWins startDate) ∧
    (w'.pairWins startDate).Perm (w.pairWins startDate)

theorem userWins_perm_iff : (w'.userWins startDate).Perm (w.userWins startDate) ↔
    ((w'.countedMatches startDate).flatMap w'.userWinRows).Perm
      ((w.countedMatches startDate).flatMap w.userWinRows) := by
  have hinj : Function.Injective fun entry : (UserId × String) × Nat =>
      UserWinEntry.mk entry.1.1 entry.1.2 entry.2 := by
    rintro ⟨⟨_, _⟩, _⟩ ⟨⟨_, _⟩, _⟩ h
    cases h
    rfl
  rw [userWins, userWins, List.map_perm_map_iff hinj, tally_perm_iff]

theorem pairWins_perm_iff : (w'.pairWins startDate).Perm (w.pairWins startDate) ↔
    ((w'.countedMatches startDate).flatMap w'.pairWinRows).Perm
      ((w.countedMatches startDate).flatMap w.pairWinRows) := by
  have hinj : Function.Injective fun entry : ((UserId × String) × (UserId × String)) × Nat =>
      PairWinEntry.mk entry.1.1.1 entry.1.1.2 entry.1.2.1 entry.1.2.2 entry.2 := by
    rintro ⟨⟨⟨_, _⟩, ⟨_, _⟩⟩, _⟩ ⟨⟨⟨_, _⟩, ⟨_, _⟩⟩, _⟩ h
    cases h
    rfl
  rw [pairWins, pairWins, List.map_perm_map_iff hinj, tally_perm_iff]

/-! ## The parts -/

/-- A stored match that counts contributes its winners. -/
theorem userPart_of_counts (hrow : w.row matchId = some r) (hcounts : r.Counts startDate) :
    w.userPart startDate matchId = (w.userWinRows r : Multiset (UserId × String)) := by
  rw [userPart, Table.part_of_get hrow, if_pos (decide_eq_true hcounts)]

/-- A match that does not count contributes nothing. -/
theorem parts_of_not_counts (h : ∀ r, w.row matchId = some r → ¬ r.Counts startDate) :
    w.userPart startDate matchId = 0 ∧ w.pairPart startDate matchId = 0 := by
  cases hrow : w.row matchId with
  | none => exact ⟨Table.part_of_get_none hrow, Table.part_of_get_none hrow⟩
  | some r =>
      have hnot : ¬ decide (r.Counts startDate) = true := by
        rw [decide_eq_true_eq]
        exact h r hrow
      rw [userPart, pairPart, Table.part_of_get hrow, Table.part_of_get hrow, if_neg hnot,
        if_neg hnot]
      exact ⟨rfl, rfl⟩

/-- A match without a winner on the winning team contributes nothing. -/
theorem parts_of_no_winner (h : ∀ r, w.row matchId = some r → w.winners r = []) :
    w.userPart startDate matchId = 0 ∧ w.pairPart startDate matchId = 0 := by
  cases hrow : w.row matchId with
  | none => exact ⟨Table.part_of_get_none hrow, Table.part_of_get_none hrow⟩
  | some r =>
      rw [userPart, pairPart, Table.part_of_get hrow, Table.part_of_get hrow, userWinRows,
        pairWinRows, h r hrow]
      exact ⟨ite_self _, ite_self _⟩

/-- What a match contributes depends on its row but for `updated_at`, its roster and the names. -/
theorem parts_congr {r' : MatchRow} (hrow : w.row matchId = some r)
    (hrow' : w'.row matchId = some r')
    (hrows : ∃ t, r' = { r with updatedAt := t }) (hroster : w'.roster matchId = w.roster matchId)
    (husers : w'.users = w.users) :
    w'.userPart startDate matchId = w.userPart startDate matchId ∧
      w'.pairPart startDate matchId = w.pairPart startDate matchId := by
  obtain ⟨t, rfl⟩ := hrows
  obtain rfl : r.id = matchId := id_of_row hrow
  have hkey := userKey_congr husers
  have hwinners : w'.winners { r with updatedAt := t } = w.winners r := by
    rw [winners, winners, hroster]
    rfl
  have huser : w'.userWinRows { r with updatedAt := t } = w.userWinRows r := by
    rw [userWinRows, userWinRows, hwinners, hkey]
  have hpair : w'.pairWinRows { r with updatedAt := t } = w.pairWinRows r := by
    rw [pairWinRows, pairWinRows, hwinners, hkey, hroster]
  rw [userPart, userPart, pairPart, pairPart, Table.part_of_get hrow, Table.part_of_get hrow,
    Table.part_of_get hrow', Table.part_of_get hrow', huser, hpair]
  exact ⟨rfl, rfl⟩

/-- A match with the same row and the same roster contributes the same. -/
theorem parts_of_view (hrow : w'.row matchId = w.row matchId)
    (hroster : w'.roster matchId = w.roster matchId) (husers : w'.users = w.users) :
    w'.userPart startDate matchId = w.userPart startDate matchId ∧
      w'.pairPart startDate matchId = w.pairPart startDate matchId := by
  cases hr : w.row matchId with
  | none =>
      rw [userPart, userPart, pairPart, pairPart, Table.part_of_get_none hr,
        Table.part_of_get_none hr, Table.part_of_get_none (hrow.trans hr),
        Table.part_of_get_none (hrow.trans hr)]
      exact ⟨rfl, rfl⟩
  | some r => exact parts_congr hr (hrow.trans hr) ⟨r.updatedAt, rfl⟩ hroster husers

/-! ## The standings -/

/-- When every match contributes the same, the standings are the same. -/
theorem sameStandings_of_parts
    (h : ∀ matchId, w'.userPart startDate matchId = w.userPart startDate matchId ∧
      w'.pairPart startDate matchId = w.pairPart startDate matchId) :
    SameStandings startDate w w' :=
  ⟨userWins_perm_iff.mpr (Table.flatMap_sel_perm fun matchId => (h matchId).1),
    pairWins_perm_iff.mpr (Table.flatMap_sel_perm fun matchId => (h matchId).2)⟩

/-- When one match contributes more wins and no other less, the wins are not the same. -/
theorem not_sameStandings_of_part {extra : Multiset (UserId × String)}
    (hothers : ∀ other, other ≠ matchId → w'.userPart startDate other = w.userPart startDate other)
    (hextra : w'.userPart startDate matchId = w.userPart startDate matchId + extra)
    (hne : extra ≠ 0) : ¬ SameStandings startDate w w' := by
  rintro ⟨huser, -⟩
  have hadd := Table.coe_flatMap_sel_add hothers hextra
  have hsame := Multiset.coe_eq_coe.mpr (userWins_perm_iff.mp huser)
  exact hne (add_eq_left.mp (hadd.symm.trans hsame))

theorem SameStandings.symm (h : SameStandings startDate w w') : SameStandings startDate w' w :=
  ⟨h.1.symm, h.2.symm⟩

/-! ## Crediting wins -/

/-- The name the standings show for a user. -/
def displayName (w : World) (userId : UserId) : String :=
  ((w.users.get userId).map (·.displayName)).getD ""

/-- One more win for each of some users; the others keep their wins. -/
def creditWins (w : World) (userIds : List UserId) (entries : List UserWinEntry) :
    List UserWinEntry :=
  entries.map (fun entry =>
      if entry.userId ∈ userIds then { entry with wins := entry.wins + 1 } else entry) ++
    (userIds.filter (· ∉ entries.map (·.userId))).map fun userId =>
      ⟨userId, w.displayName userId, 1⟩

/-- Nobody is credited: nothing changes. -/
@[simp] theorem creditWins_nil (w : World) (entries : List UserWinEntry) :
    w.creditWins [] entries = entries := by
  simp [creditWins]

theorem userKey_of_isSome {userId : UserId} (h : (w.users.get userId).isSome) :
    w.userKey userId = some (userId, w.displayName userId) := by
  obtain ⟨user, huser⟩ := Option.isSome_iff_exists.mp h
  rw [userKey, displayName, huser, Option.map_some, Table.key_of_get huser]
  rfl

/-- The names in the joined rows are those of the users. -/
theorem eq_of_mem_userWinRows {row : UserId × String} (h : row ∈ w.userWinRows r) :
    row = (row.1, w.displayName row.1) := by
  obtain ⟨p, -, hkey⟩ := List.mem_filterMap.mp h
  have hstored : (w.users.get p.userId).isSome := by
    rw [userKey, Option.map_eq_some_iff] at hkey
    obtain ⟨user, huser, -⟩ := hkey
    rw [huser]
    rfl
  obtain rfl := Option.some.inj ((userKey_of_isSome hstored).symm.trans hkey)
  rfl

/-- Crediting the keys of some users credits the users. -/
theorem map_credit {userIds : List UserId} {entries : List ((UserId × String) × Nat)}
    (hnames : ∀ entry ∈ entries, entry.1 = (entry.1.1, w.displayName entry.1.1)) :
    (credit (userIds.map fun userId => (userId, w.displayName userId)) entries).map
        (fun entry => UserWinEntry.mk entry.1.1 entry.1.2 entry.2) =
      w.creditWins userIds
        (entries.map fun entry => UserWinEntry.mk entry.1.1 entry.1.2 entry.2) := by
  have hkey : ∀ entry ∈ entries,
      (entry.1 ∈ userIds.map (fun userId => (userId, w.displayName userId)) ↔
        entry.1.1 ∈ userIds) := by
    intro entry hentry
    rw [hnames entry hentry, List.mem_map]
    constructor
    · rintro ⟨userId, hmem, heq⟩
      exact (Prod.mk.inj heq).1 ▸ hmem
    · exact fun hmem => ⟨_, hmem, rfl⟩
  have hnew : ∀ userId, ((userId, w.displayName userId) ∈ entries.map Prod.fst ↔
      userId ∈ (entries.map fun entry => UserWinEntry.mk entry.1.1 entry.1.2 entry.2).map
        (·.userId)) := by
    intro userId
    simp only [List.map_map, List.mem_map, Function.comp_apply]
    constructor
    · rintro ⟨entry, hentry, heq⟩
      exact ⟨entry, hentry, congrArg Prod.fst heq⟩
    · rintro ⟨entry, hentry, rfl⟩
      exact ⟨entry, hentry, hnames entry hentry⟩
  rw [credit, creditWins, List.map_append, List.map_map, List.map_map, List.filter_map,
    List.map_map]
  congr 1
  · rw [List.map_map]
    refine List.map_congr_left fun entry hentry => ?_
    simp only [Function.comp_apply, hkey entry hentry]
    split <;> rfl
  · refine congrArg (List.map _) (List.filter_congr fun userId _ => ?_)
    exact decide_eq_decide.mpr (not_congr (hnew userId))

/-- When one match that contributed nothing contributes a win for each of some users, and all other
matches the same as before, these users are credited. -/
theorem userWins_credit {userIds : List UserId} (hnodup : userIds.Nodup)
    (hothers : ∀ other, other ≠ matchId → w'.userPart startDate other = w.userPart startDate other)
    (hbefore : w.userPart startDate matchId = 0)
    (hafter : w'.userPart startDate matchId =
      (userIds.map fun userId => (userId, w.displayName userId) : List (UserId × String))) :
    (w'.userWins startDate).Perm (w.creditWins userIds (w.userWins startDate)) := by
  let extra := userIds.map fun userId => (userId, w.displayName userId)
  have hkeys : extra.Nodup := hnodup.map fun a b h => (Prod.mk.inj h).1
  have hrows : ((w'.countedMatches startDate).flatMap w'.userWinRows).Perm
      ((w.countedMatches startDate).flatMap w.userWinRows ++ extra) := by
    rw [← Multiset.coe_eq_coe, ← Multiset.coe_add]
    have hextra : w'.userPart startDate matchId = w.userPart startDate matchId + ↑extra := by
      rw [hafter, hbefore, zero_add]
    exact Table.coe_flatMap_sel_add hothers hextra
  have htally := (tally_perm_iff.mpr hrows).trans (tally_append hkeys)
  rw [userWins, userWins, ← map_credit (w := w)]
  · exact htally.map _
  · rintro ⟨row, n⟩ hentry
    obtain ⟨r, -, hrow⟩ := List.mem_flatMap.mp (mem_tally.mp hentry).1
    exact eq_of_mem_userWinRows hrow

/-- A world with other users has the same standings when no winner's name is another. -/
theorem sameStandings_of_names (hrows : w'.matchRows = w.matchRows)
    (hplayers : w'.players = w.players)
    (hnames : ∀ r ∈ w.countedMatches startDate, ∀ p ∈ w.winners r,
      w'.userKey p.userId = w.userKey p.userId) : SameStandings startDate w w' := by
  have huser : (w'.countedMatches startDate).flatMap w'.userWinRows =
      (w.countedMatches startDate).flatMap w.userWinRows := by
    rw [countedMatches, hrows]
    refine List.flatMap_congr fun r hr => ?_
    rw [userWinRows, userWinRows, winners_congr hplayers]
    exact List.filterMap_congr fun p hp => hnames r hr p hp
  have hpair : (w'.countedMatches startDate).flatMap w'.pairWinRows =
      (w.countedMatches startDate).flatMap w.pairWinRows := by
    rw [countedMatches, hrows]
    refine List.flatMap_congr fun r hr => ?_
    rw [pairWinRows, pairWinRows, winners_congr hplayers, roster_congr hplayers]
    refine List.flatMap_congr fun p hp => List.filterMap_congr fun q hq => ?_
    -- The partner is on the team of the winner, so the partner has won as well.
    have hwon : q ∈ w.winners r := by
      obtain ⟨hq, hpair⟩ := List.mem_filter.mp hq
      obtain ⟨hteam, -⟩ := of_decide_eq_true hpair
      refine List.mem_filter.mpr ⟨hq, decide_eq_true ?_⟩
      rw [hteam]
      exact of_decide_eq_true (List.mem_filter.mp hp).2
    rw [hnames r hr p hp, hnames r hr q hwon]
  exact ⟨userWins_perm_iff.mpr (.of_eq huser), pairWins_perm_iff.mpr (.of_eq hpair)⟩

end FoosballApi.Matches.World
