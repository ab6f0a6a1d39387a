import FoosballApi.Leaderboard.LeaderboardService
import FoosballApi.Leaderboard.Standings
import FoosballApi.Matches.Requests

/-!
# The user leaderboard counts wins

`UserStandings` says what the list of `getUserWins` is for: who has won how many matches, the most
successful users first. On every database that respects the keys of its tables the query computes
it: the primary keys keep the joins from repeating a row, and the foreign key from a player to a
user keeps them from losing one.
-/

namespace FoosballApi.Matches

open Calls Data Events Leaderboard Prog Text Users

/-- The team has the higher score. -/
def MatchRow.HasHigherScore (r : MatchRow) : Team → Prop
  | .A => ∃ scoreA ∈ r.scoreA, ∃ scoreB ∈ r.scoreB, scoreB < scoreA
  | .B => ∃ scoreA ∈ r.scoreA, ∃ scoreB ∈ r.scoreB, scoreA < scoreB

instance (r : MatchRow) (team : Team) : Decidable (r.HasHigherScore team) := by
  cases team <;> exact inferInstanceAs (Decidable (∃ _ ∈ _, ∃ _ ∈ _, _))

/-- The `CASE` expression finds the team with the higher score. -/
theorem winningTeam_eq_some {r : MatchRow} {team : Team} :
    r.winningTeam = some team ↔ r.HasHigherScore team := by
  unfold MatchRow.winningTeam
  cases hA : r.scoreA with
  | none => cases team <;> simp [MatchRow.HasHigherScore, hA]
  | some scoreA =>
      cases hB : r.scoreB with
      | none => cases team <;> simp [MatchRow.HasHigherScore, hB]
      | some scoreB =>
          cases team with
          | A =>
              simp only [MatchRow.HasHigherScore, hA, hB]
              grind
          | B =>
              simp only [MatchRow.HasHigherScore, hA, hB]
              grind

namespace World

/-- The unique and foreign keys of `users`, `matches` and `match_players`; the tables carry the
primary keys. -/
structure KeysHold (w : World) : Prop where
  azureOid : (w.users.rows.map (·.azureOid)).Nodup
  email : (w.users.rows.map (·.email)).Nodup
  createdBy : ∀ r ∈ w.matchRows.rows, ∀ userId ∈ r.createdBy, (w.users.get userId).isSome
  player_match : ∀ p ∈ w.players.rows, (w.row p.matchId).isSome
  player_user : ∀ p ∈ w.players.rows, (w.users.get p.userId).isSome
  slots : (w.players.rows.map fun p => (p.matchId, p.team, p.slot)).Nodup

/-- The match counts and the user's team has the higher score. -/
def Won (w : World) (startDate : Option Date) (userId : UserId) (r : MatchRow) : Prop :=
  r.Counts startDate ∧ ∃ p ∈ w.roster r.id, p.userId = userId ∧ r.HasHigherScore p.team

instance (w : World) (startDate : Option Date) (userId : UserId) (r : MatchRow) :
    Decidable (w.Won startDate userId r) := inferInstanceAs (Decidable (_ ∧ ∃ _ ∈ _, _))

/-- The matches a user has won. -/
def wonMatches (w : World) (startDate : Option Date) (userId : UserId) : List MatchRow :=
  w.matchRows.sel (w.Won startDate userId ·)

/-- The number of players on the winning team of a match. -/
def winnerCount (w : World) (r : MatchRow) : Nat :=
  ((w.roster r.id).filter (r.HasHigherScore ·.team)).length

/-- The list has the wins of every winner once, the most successful first. -/
structure UserStandings (w : World) (startDate : Option Date) (order : List UserWinEntry) :
    Prop where
  one_entry : (order.map (·.userId)).Nodup
  winners : ∀ userId, userId ∈ order.map (·.userId) ↔ 0 < (w.wonMatches startDate userId).length
  wins : ∀ entry ∈ order, entry.wins = (w.wonMatches startDate entry.userId).length
  descending : order.Pairwise fun a b => a.wins ≥ b.wins
  total : (order.map (·.wins)).sum = ((w.countedMatches startDate).map w.winnerCount).sum

variable {w : World} {startDate : Option Date} {r : MatchRow} {userId : UserId}

/-! ## The winners of a match -/

/-- The users on the winning team of a match. -/
def winnerIds (w : World) (r : MatchRow) : List UserId := (w.winners r).map (·.userId)

theorem winners_eq (w : World) (r : MatchRow) :
    w.winners r = (w.roster r.id).filter (r.HasHigherScore ·.team) :=
  List.filter_congr fun _ _ => decide_eq_decide.mpr winningTeam_eq_some

/-- Nobody wins a match twice. -/
theorem nodup_winnerIds (w : World) (r : MatchRow) : (w.winnerIds r).Nodup :=
  (roster_users_nodup w r.id).sublist (List.filter_sublist.map _)

theorem length_winnerIds (w : World) (r : MatchRow) : (w.winnerIds r).length = w.winnerCount r := by
  rw [winnerIds, List.length_map, winners_eq, winnerCount]

/-- A user has won a match that counts and has the user among its winners. -/
theorem won_iff : w.Won startDate userId r ↔ r.Counts startDate ∧ userId ∈ w.winnerIds r := by
  rw [Won, winnerIds, winners_eq]
  simp only [List.mem_map, List.mem_filter, decide_eq_true_eq]
  refine and_congr_right fun _ => ?_
  constructor
  · rintro ⟨p, hp, huser, hhigher⟩
    exact ⟨p, ⟨hp, hhigher⟩, huser⟩
  · rintro ⟨p, ⟨hp, hhigher⟩, huser⟩
    exact ⟨p, hp, huser, hhigher⟩

theorem wonMatches_eq (w : World) (startDate : Option Date) (userId : UserId) :
    w.wonMatches startDate userId =
      (w.countedMatches startDate).filter fun r => userId ∈ w.winnerIds r := by
  rw [wonMatches, countedMatches, Table.sel, Table.sel, List.filter_filter]
  refine List.filter_congr fun r _ => ?_
  rw [← Bool.decide_and, decide_eq_decide, won_iff, and_comm]

/-- The `GROUP BY` columns of a stored user. -/
def userColumns (w : World) (userId : UserId) : UserId × String := (userId, w.displayName userId)

theorem userColumns_injective (w : World) : Function.Injective w.userColumns :=
  fun _ _ h => (Prod.mk.inj h).1

/-- Every player has a user to join. -/
theorem userKey_of_mem_roster (hkeys : w.KeysHold) {p : MatchPlayerEntity} {matchId : MatchId}
    (hp : p ∈ w.roster matchId) : w.userKey p.userId = some (w.userColumns p.userId) :=
  userKey_of_isSome (hkeys.player_user p (mem_roster.mp hp).1)

/-- The joined rows of a match are its winners. -/
theorem userWinRows_eq (hkeys : w.KeysHold) (r : MatchRow) :
    w.userWinRows r = (w.winnerIds r).map w.userColumns := by
  rw [userWinRows, winnerIds, List.map_map, ← List.filterMap_eq_map]
  refine List.filterMap_congr fun p hp => ?_
  exact userKey_of_mem_roster hkeys (List.mem_of_mem_filter hp)

theorem nodup_userWinRows (hkeys : w.KeysHold) (r : MatchRow) : (w.userWinRows r).Nodup := by
  rw [userWinRows_eq hkeys]
  exact (nodup_winnerIds w r).map (userColumns_injective w)

/-! ## The query -/

/-- The rows that `getUserWins` counts. -/
def winRows (w : World) (startDate : Option Date) : List (UserId × String) :=
  (w.countedMatches startDate).flatMap w.userWinRows

/-- The entries have the columns of their users. -/
theorem columns_of_mem_tally {entry : (UserId × String) × Nat}
    (h : entry ∈ tally (w.winRows startDate)) : entry.1 = w.userColumns entry.1.1 := by
  obtain ⟨hmem, -⟩ := mem_tally.mp h
  obtain ⟨r, -, hrow⟩ := List.mem_flatMap.mp hmem
  exact eq_of_mem_userWinRows hrow

/-- The entries are those of the users who have won, with the number of matches they have won. -/
theorem mem_tally_winRows (hkeys : w.KeysHold) {n : Nat} :
    (w.userColumns userId, n) ∈ tally (w.winRows startDate) ↔
      0 < n ∧ n = (w.wonMatches startDate userId).length := by
  rw [wonMatches_eq]
  refine mem_tally_flatMap (fun r _ => nodup_userWinRows hkeys r) fun r _ => ?_
  rw [decide_eq_true_eq, userWinRows_eq hkeys]
  exact (List.mem_map_of_injective (userColumns_injective w)).symm

/-- The wins of an entry. -/
theorem wins_of_mem_tally (hkeys : w.KeysHold) {entry : (UserId × String) × Nat}
    (h : entry ∈ tally (w.winRows startDate)) :
    0 < entry.2 ∧ entry.2 = (w.wonMatches startDate entry.1.1).length := by
  have hcolumns := columns_of_mem_tally h
  obtain ⟨columns, n⟩ := entry
  dsimp only at hcolumns
  rw [hcolumns] at h
  exact (mem_tally_winRows hkeys).mp h

/-- The query without its limit returns the standings. -/
theorem userStandings_userWins (hkeys : w.KeysHold) (startDate : Option Date) :
    w.UserStandings startDate (w.userWins startDate) := by
  have hids : (w.userWins startDate).map (·.userId) =
      (tally (w.winRows startDate)).map fun entry => entry.1.1 := by
    rw [userWins, List.map_map]
    rfl
  constructor
  · rw [hids]
    refine (List.Nodup.of_map _ (tally_keys_nodup _)).map_on fun a ha b hb heq => ?_
    have hcount := (wins_of_mem_tally hkeys ha).2
    have hcount' := (wins_of_mem_tally hkeys hb).2
    refine Prod.ext ?_ ?_
    · rw [columns_of_mem_tally ha, columns_of_mem_tally hb, heq]
    · rw [hcount, hcount', heq]
  · intro userId
    rw [hids, List.mem_map]
    constructor
    · rintro ⟨entry, hentry, rfl⟩
      obtain ⟨hpos, hcount⟩ := wins_of_mem_tally hkeys hentry
      omega
    · intro hpos
      exact ⟨(w.userColumns userId, _), (mem_tally_winRows hkeys).mpr ⟨hpos, rfl⟩, rfl⟩
  · intro entry hentry
    obtain ⟨row, hrow, rfl⟩ := List.mem_map.mp hentry
    exact (wins_of_mem_tally hkeys hrow).2
  · exact List.pairwise_map.mpr (tally_pairwise _)
  · have hwins : (w.userWins startDate).map (·.wins) =
        (tally (w.winRows startDate)).map Prod.snd := by
      rw [userWins, List.map_map]
      rfl
    rw [hwins, sum_tally, winRows, List.length_flatMap]
    congr 1
    refine List.map_congr_left fun r _ => ?_
    rw [userWinRows_eq hkeys, List.length_map, length_winnerIds]

/-! ## The windows -/

/-- A later start admits fewer matches. -/
theorem counts_mono {start start' : Option Date}
    (hstart : ∀ s ∈ start, ∃ s' ∈ start', s ≤ s') (h : r.Counts start') : r.Counts start := by
  obtain ⟨hstatus, hA, hB, hne, hwindow⟩ := h
  refine ⟨hstatus, hA, hB, hne, fun s hs => ?_⟩
  obtain ⟨s', hs', hle⟩ := hstart s hs
  obtain ⟨confirmedAt, hat, hge⟩ := hwindow s' hs'
  exact ⟨confirmedAt, hat, hle.trans hge⟩

/-- With a later start a user has won fewer matches. -/
theorem length_wonMatches_mono {start start' : Option Date}
    (hstart : ∀ s ∈ start, ∃ s' ∈ start', s ≤ s') (userId : UserId) :
    (w.wonMatches start' userId).length ≤ (w.wonMatches start userId).length := by
  refine (List.monotone_filter_right _ fun r hwon => ?_).length_le
  obtain ⟨hcounts, hplayer⟩ := of_decide_eq_true hwon
  exact decide_eq_true ⟨counts_mono hstart hcounts, hplayer⟩

/-- The wins of a user in each window. -/
def winsIn [TimeZone] (w : World) (filter : TimeFilter) (userId : UserId) : Nat :=
  (w.wonMatches (windowStart w.clock filter) userId).length

/-- A window of more days starts earlier, also across a change of the clock. -/
theorem windowStart_le [TimeZone] {now : Date} {wide narrow : TimeFilter} {days fewer : Nat}
    (hwide : windowDays wide = some days) (hnarrow : windowDays narrow = some fewer)
    (hdays : fewer + 2 ≤ days) :
    ∀ s ∈ windowStart now wide, ∃ s' ∈ windowStart now narrow, s ≤ s' := by
  intro s hs
  rw [windowStart, hwide, Option.map_some] at hs
  rw [windowStart, hnarrow, Option.map_some]
  obtain rfl := Option.some.inj hs
  exact ⟨_, rfl, Int.toNat_le_toNat (daysBefore_le hdays now)⟩

/-- A wider window has no fewer wins of a user. -/
theorem winsIn_mono [TimeZone] (w : World) (userId : UserId) :
    w.winsIn .week userId ≤ w.winsIn .month userId ∧
      w.winsIn .month userId ≤ w.winsIn .year userId ∧
        w.winsIn .year userId ≤ w.winsIn .total userId := by
  refine ⟨length_wonMatches_mono ?_ userId, length_wonMatches_mono ?_ userId,
    length_wonMatches_mono ?_ userId⟩
  · exact windowStart_le rfl rfl (by decide)
  · exact windowStart_le rfl rfl (by decide)
  · intro s hs
    cases hs

/-! ## `getUserWins` -/

/-- On a database that respects its keys `getUserWins` returns the first entries of the standings,
and a wider window has no fewer wins of a user. -/
theorem getUserWins_standings [TimeZone] (w : World) (hkeys : w.KeysHold) (filter : TimeFilter) :
    (∃ order, w.UserStandings (windowStart w.clock filter) order ∧ ∀ limit,
      ((LeaderboardRepository.getUserWins filter limit).eval system noFaults [] {} w).result =
        .ok (order.take limit)) ∧
      ∀ userId, w.winsIn .week userId ≤ w.winsIn .month userId ∧
        w.winsIn .month userId ≤ w.winsIn .year userId ∧
          w.winsIn .year userId ≤ w.winsIn .total userId := by
  refine ⟨⟨_, userStandings_userWins hkeys _, fun limit => ?_⟩, winsIn_mono w⟩
  cases filter <;> rfl

/-! ## A match of four -/

/-- The four players of a match of teams of two. -/
def pairsOfPlayers : AddPlayersDto :=
  ⟨[playerDto 1 .A 0 (by decide), playerDto 4 .A 1 (by decide), playerDto 2 .B 0 (by decide),
    playerDto 3 .B 1 (by decide)], by decide, by decide⟩

def luigi : JwtPayload := ⟨4, false⟩

/-- On the first of April 2024 `mario` and `luigi` win a match against `rival` and `admin`. -/
def doublesWon : World :=
  (World.withUsers (signedIn.put ⟨4, "oid-004", "luigi@foosball.test", "luigi", false⟩)).run
    [ .tick 1712000000000
    , .request ⟨mario, .createMatch ⟨some .twoVsTwo⟩⟩
    , .request ⟨mario, .addPlayers 1 pairsOfPlayers⟩
    , .request ⟨mario, .submitResult 1 ⟨10, 5⟩⟩
    , .request ⟨mario, .confirmResult 1⟩
    , .request ⟨luigi, .confirmResult 1⟩
    , .request ⟨rival, .confirmResult 1⟩ ]

theorem keysHold_doublesWon : doublesWon.KeysHold :=
  ⟨by decide, by decide, by decide, by decide, by decide, by decide⟩

open SummerTime in
/-- The window reaches back across the change to summer time. -/
theorem windowStart_doublesWon : windowStart doublesWon.clock .month = some 1709411600000 := by
  decide

open SummerTime in
/-- The standings after the match of four. -/
theorem getUserWins_standings_doublesWon :
    (∃ order, doublesWon.UserStandings (some 1709411600000) order ∧ ∀ limit,
      ((LeaderboardRepository.getUserWins .month limit).eval system noFaults [] {}
        doublesWon).result = .ok (order.take limit)) ∧
      ∀ userId, doublesWon.winsIn .week userId ≤ doublesWon.winsIn .month userId ∧
        doublesWon.winsIn .month userId ≤ doublesWon.winsIn .year userId ∧
          doublesWon.winsIn .year userId ≤ doublesWon.winsIn .total userId := by
  have hstandings := getUserWins_standings doublesWon keysHold_doublesWon .month
  rw [windowStart_doublesWon] at hstandings
  exact hstandings

end World

end FoosballApi.Matches
