import FoosballApi.Data.Pairs
import FoosballApi.Leaderboard.WinCounts

/-!
# The pair leaderboard counts every winning pair once

`getPairWins` joins the winning team of a match with itself. On a database that respects its keys
the rows of one match are the pairs of its winners, so the standings of the pairs agree with those
of the users: a user who wins in a team of `k` shares this win with `k - 1` others.
-/

namespace FoosballApi.Matches.World

open Calls Data Events Leaderboard Prog Text

/-- The matches that two users have won together. -/
def wonTogether (w : World) (startDate : Option Date) (userA userB : UserId) : List MatchRow :=
  w.matchRows.sel fun r => w.Won startDate userA r ∧ w.Won startDate userB r

/-- The list has the common wins of every pair of users once, the smaller id first. -/
structure PairStandings (w : World) (startDate : Option Date) (order : List PairWinEntry) :
    Prop where
  one_entry : (order.map fun entry => (entry.userAId, entry.userBId)).Nodup
  winners : ∀ userA userB, (userA, userB) ∈ order.map (fun entry => (entry.userAId, entry.userBId)) ↔
    userA < userB ∧ 0 < (w.wonTogether startDate userA userB).length
  wins : ∀ entry ∈ order,
    entry.wins = (w.wonTogether startDate entry.userAId entry.userBId).length
  total : (order.map (·.wins)).sum = ((w.countedMatches startDate).map fun r =>
    w.winnerCount r * (w.winnerCount r - 1) / 2).sum
  shares : ∀ userId,
    ((order.filter fun entry => entry.userAId = userId ∨ entry.userBId = userId).map (·.wins)).sum =
      ((w.wonMatches startDate userId).map fun r => w.winnerCount r - 1).sum

variable {w : World} {startDate : Option Date} {r : MatchRow} {userId : UserId}

/-! ## The pairs of a match -/

/-- The `GROUP BY` columns of two stored users. -/
def pairColumns (w : World) (pair : UserId × UserId) : (UserId × String) × (UserId × String) :=
  (w.userColumns pair.1, w.userColumns pair.2)

theorem pairColumns_injective (w : World) : Function.Injective w.pairColumns := by
  intro pair pair' h
  obtain ⟨hA, hB⟩ := Prod.mk.inj h
  exact Prod.ext (userColumns_injective w hA) (userColumns_injective w hB)

/-- The partners that the join finds for a winner are winners. -/
theorem partners_eq {p : MatchPlayerEntity} (hp : p ∈ w.winners r) :
    ((w.roster r.id).filter fun q => q.team = p.team ∧ p.userId < q.userId) =
      (w.winners r).filter fun q => p.userId < q.userId := by
  obtain ⟨-, hwon⟩ := List.mem_filter.mp hp
  have hteam := of_decide_eq_true hwon
  rw [winners, List.filter_filter]
  refine List.filter_congr fun q _ => ?_
  have hsame : q.team = p.team ↔ r.winningTeam = some q.team := by
    rw [hteam, Option.some.injEq, eq_comm]
  rw [← Bool.decide_and, decide_eq_decide, hsame, and_comm]

/-- The joined rows of a match are the pairs of its winners. -/
theorem pairWinRows_eq (hkeys : w.KeysHold) (r : MatchRow) :
    w.pairWinRows r = (orderedPairs (w.winnerIds r)).map w.pairColumns := by
  have hjoin : ∀ p ∈ w.winners r,
      (((w.roster r.id).filter fun q => q.team = p.team ∧ p.userId < q.userId).filterMap fun q => do
        let userA ← w.userKey p.userId
        let userB ← w.userKey q.userId
        some (userA, userB)) =
      ((w.winnerIds r).filter (p.userId < ·)).map fun userB => w.pairColumns (p.userId, userB) := by
    intro p hp
    rw [partners_eq hp, winnerIds, List.filter_map, List.map_map, ← List.filterMap_eq_map]
    refine List.filterMap_congr fun q hq => ?_
    have hq' : q ∈ w.roster r.id := List.mem_of_mem_filter (List.mem_of_mem_filter hq)
    rw [userKey_of_mem_roster hkeys (List.mem_of_mem_filter hp), userKey_of_mem_roster hkeys hq']
    rfl
  have hids : ∀ next : UserId → List ((UserId × String) × (UserId × String)),
      (w.winnerIds r).flatMap next = (w.winners r).flatMap fun p => next p.userId := fun next =>
    List.flatMap_map ..
  rw [pairWinRows, orderedPairs, List.flatMap_congr hjoin, List.map_flatMap, hids]
  refine List.flatMap_congr fun p _ => ?_
  rw [List.map_map]
  rfl

theorem nodup_pairWinRows (hkeys : w.KeysHold) (r : MatchRow) : (w.pairWinRows r).Nodup := by
  rw [pairWinRows_eq hkeys]
  exact (nodup_orderedPairs (nodup_winnerIds w r)).map (pairColumns_injective w)

/-- The matches two users have won together have both among their winners. -/
theorem wonTogether_eq (w : World) (startDate : Option Date) (userA userB : UserId) :
    w.wonTogether startDate userA userB =
      (w.countedMatches startDate).filter fun r =>
        userA ∈ w.winnerIds r ∧ userB ∈ w.winnerIds r := by
  rw [wonTogether, countedMatches, Table.sel, Table.sel, List.filter_filter]
  refine List.filter_congr fun r _ => ?_
  rw [← Bool.decide_and, decide_eq_decide, won_iff, won_iff]
  tauto

/-! ## The query -/

/-- The rows that `getPairWins` counts. -/
def pairRows (w : World) (startDate : Option Date) :
    List ((UserId × String) × (UserId × String)) :=
  (w.countedMatches startDate).flatMap w.pairWinRows

/-- The ids of an entry. -/
def pairIds (entry : ((UserId × String) × (UserId × String)) × Nat) : UserId × UserId :=
  (entry.1.1.1, entry.1.2.1)

/-- The entries have the columns of their users, the smaller id first. -/
theorem pairColumns_of_mem_tally (hkeys : w.KeysHold)
    {entry : ((UserId × String) × (UserId × String)) × Nat}
    (h : entry ∈ tally (w.pairRows startDate)) :
    entry.1 = w.pairColumns (pairIds entry) ∧ (pairIds entry).1 < (pairIds entry).2 := by
  obtain ⟨columns, n⟩ := entry
  obtain ⟨hmem, -⟩ := mem_tally.mp h
  obtain ⟨r, -, hrow⟩ := List.mem_flatMap.mp hmem
  rw [pairWinRows_eq hkeys] at hrow
  obtain ⟨⟨userA, userB⟩, hpair, rfl⟩ := List.mem_map.mp hrow
  exact ⟨rfl, (mem_orderedPairs.mp hpair).2.2⟩

/-- The entries are those of the pairs that have won together, with the number of matches. -/
theorem mem_tally_pairRows (hkeys : w.KeysHold) {userA userB : UserId} (hlt : userA < userB)
    {n : Nat} : (w.pairColumns (userA, userB), n) ∈ tally (w.pairRows startDate) ↔
      0 < n ∧ n = (w.wonTogether startDate userA userB).length := by
  rw [wonTogether_eq]
  refine mem_tally_flatMap (fun r _ => nodup_pairWinRows hkeys r) fun r _ => ?_
  rw [decide_eq_true_eq, pairWinRows_eq hkeys,
    List.mem_map_of_injective (pairColumns_injective w), mem_orderedPairs]
  tauto

/-- The wins of an entry. -/
theorem wins_of_mem_pairTally (hkeys : w.KeysHold)
    {entry : ((UserId × String) × (UserId × String)) × Nat}
    (h : entry ∈ tally (w.pairRows startDate)) :
    0 < entry.2 ∧
      entry.2 = (w.wonTogether startDate (pairIds entry).1 (pairIds entry).2).length := by
  obtain ⟨hcolumns, hlt⟩ := pairColumns_of_mem_tally hkeys h
  refine (mem_tally_pairRows hkeys hlt).mp ?_
  rw [← hcolumns]
  exact h

/-- The wins of the entries that satisfy a condition on their columns are counted match by match. -/
theorem sum_pairTally (w : World) (startDate : Option Date)
    (p : (UserId × String) × (UserId × String) → Bool) :
    (((tally (w.pairRows startDate)).filter fun entry => p entry.1).map Prod.snd).sum =
      ((w.countedMatches startDate).map fun r => (w.pairWinRows r).countP p).sum := by
  rw [sum_filter_tally, pairRows, List.countP_flatMap]
  rfl

/-- The query without its limit returns the standings of the pairs. -/
theorem pairStandings_pairWins (hkeys : w.KeysHold) (startDate : Option Date) :
    w.PairStandings startDate (w.pairWins startDate) := by
  have hids : (w.pairWins startDate).map (fun entry => (entry.userAId, entry.userBId)) =
      (tally (w.pairRows startDate)).map pairIds := by
    rw [pairWins, List.map_map]
    rfl
  constructor
  · rw [hids]
    refine (List.Nodup.of_map _ (tally_keys_nodup _)).map_on fun a ha b hb heq => ?_
    have hcount := (wins_of_mem_pairTally hkeys ha).2
    have hcount' := (wins_of_mem_pairTally hkeys hb).2
    refine Prod.ext ?_ ?_
    · rw [(pairColumns_of_mem_tally hkeys ha).1, (pairColumns_of_mem_tally hkeys hb).1, heq]
    · rw [hcount, hcount', heq]
  · intro userA userB
    rw [hids, List.mem_map]
    constructor
    · rintro ⟨entry, hentry, hpair⟩
      obtain ⟨-, hlt⟩ := pairColumns_of_mem_tally hkeys hentry
      obtain ⟨hpos, hcount⟩ := wins_of_mem_pairTally hkeys hentry
      rw [hpair] at hlt hcount
      exact ⟨hlt, hcount ▸ hpos⟩
    · rintro ⟨hlt, hpos⟩
      exact ⟨(w.pairColumns (userA, userB), _), (mem_tally_pairRows hkeys hlt).mpr ⟨hpos, rfl⟩, rfl⟩
  · intro entry hentry
    obtain ⟨row, hrow, rfl⟩ := List.mem_map.mp hentry
    exact (wins_of_mem_pairTally hkeys hrow).2
  · have hwins : (w.pairWins startDate).map (·.wins) =
        (tally (w.pairRows startDate)).map Prod.snd := by
      rw [pairWins, List.map_map]
      rfl
    rw [hwins, sum_tally, pairRows, List.length_flatMap]
    congr 1
    refine List.map_congr_left fun r _ => ?_
    rw [pairWinRows_eq hkeys, List.length_map, length_orderedPairs (nodup_winnerIds w r),
      length_winnerIds]
  · intro userId
    let shares : (UserId × String) × (UserId × String) → Bool := fun columns =>
      columns.1.1 = userId ∨ columns.2.1 = userId
    have hwins : ((w.pairWins startDate).filter fun entry =>
        entry.userAId = userId ∨ entry.userBId = userId).map (·.wins) =
          ((tally (w.pairRows startDate)).filter fun entry => shares entry.1).map Prod.snd := by
      rw [pairWins, List.filter_map, List.map_map]
      rfl
    -- A match contributes the pairs that the user is in.
    have hmatch : ∀ r, (w.pairWinRows r).countP shares =
        if userId ∈ w.winnerIds r then w.winnerCount r - 1 else 0 := by
      intro r
      rw [pairWinRows_eq hkeys, List.countP_map, ← length_winnerIds]
      exact countP_orderedPairs (nodup_winnerIds w r) userId
    rw [hwins, sum_pairTally, wonMatches_eq, ← sum_map_ite]
    congr 1
    refine List.map_congr_left fun r _ => ?_
    rw [hmatch]
    simp only [decide_eq_true_eq]

/-! ## `getPairWins` -/

/-- On a database that respects its keys `getPairWins` without an effective limit returns the
standings of the pairs. -/
theorem getPairWins_standings [TimeZone] (w : World) (hkeys : w.KeysHold) (filter : TimeFilter) :
    ∃ order, w.PairStandings (windowStart w.clock filter) order ∧ ∀ limit, order.length ≤ limit →
      ((LeaderboardRepository.getPairWins filter limit).eval system noFaults [] {} w).result =
        .ok order := by
  refine ⟨_, pairStandings_pairWins hkeys _, fun limit hlimit => ?_⟩
  rw [← List.take_of_length_le hlimit]
  cases filter <;> rfl

open SummerTime in
/-- The winners of the match of four are the only pair. -/
theorem getPairWins_standings_doublesWon :
    doublesWon.PairStandings (some 1709411600000) [⟨1, "mario", 4, "luigi", 1⟩] ∧
      ((LeaderboardRepository.getPairWins .month 1).eval system noFaults [] {} doublesWon).result =
        .ok [⟨1, "mario", 4, "luigi", 1⟩] := by
  obtain ⟨order, hstandings, hresult⟩ :=
    getPairWins_standings doublesWon keysHold_doublesWon .month
  have hpairs : doublesWon.pairWins (windowStart doublesWon.clock .month) =
      [⟨1, "mario", 4, "luigi", 1⟩] := by decide
  have horder := hresult (max order.length 1) (le_max_left _ 1)
  have hquery : ((LeaderboardRepository.getPairWins .month (max order.length 1)).eval system
      noFaults [] {} doublesWon).result = .ok [⟨1, "mario", 4, "luigi", 1⟩] := by
    rw [← List.take_of_length_le (l := [_]) (le_max_right order.length 1), ← hpairs]
    rfl
  obtain rfl := Except.ok.inj (horder.symm.trans hquery)
  rw [windowStart_doublesWon] at hstandings
  exact ⟨hstandings, hresult 1 le_rfl⟩

end FoosballApi.Matches.World
