import FoosballApi.Data.Tally
import FoosballApi.Matches.Store

/-!
# The leaderboard queries

The two `SELECT` statements of the leaderboard, over the database. Both join every confirmed,
decisive match in the window with its players on the winning team, and count the rows of each user
or pair. A comparison with a null score is unknown, so the `CASE` of the join condition falls
through to its `ELSE NULL`.
-/

namespace FoosballApi.Matches

open Data Leaderboard Users

/-- `CASE WHEN score_a > score_b THEN 'A' WHEN score_b > score_a THEN 'B' ELSE NULL END`. -/
def MatchRow.winningTeam (r : MatchRow) : Option Team :=
  match r.scoreA, r.scoreB with
  | some scoreA, some scoreB =>
      if scoreB < scoreA then some .A else if scoreA < scoreB then some .B else none
  | _, _ => none

/-- The `WHERE` clause; times are instants, and a null `confirmed_at` is in no window. -/
def MatchRow.Counts (startDate : Option Date) (r : MatchRow) : Prop :=
  r.status = .confirmed ∧ r.scoreA ≠ none ∧ r.scoreB ≠ none ∧ r.scoreA ≠ r.scoreB ∧
    ∀ start ∈ startDate, ∃ confirmedAt ∈ r.confirmedAt, start ≤ confirmedAt

instance (startDate : Option Date) (r : MatchRow) : Decidable (r.Counts startDate) :=
  inferInstanceAs (Decidable (_ ∧ _ ∧ _ ∧ _ ∧ _))

namespace World

/-- The players that the join finds on the winning team of a match. -/
def winners (w : World) (r : MatchRow) : List MatchPlayerEntity :=
  (w.roster r.id).filter fun p => r.winningTeam = some p.team

/-- The matches that count. -/
def countedMatches (w : World) (startDate : Option Date) : List MatchRow :=
  w.matchRows.sel (·.Counts startDate)

/-- The `GROUP BY` columns of a joined user. -/
def userKey (w : World) (userId : UserId) : Option (UserId × String) :=
  (w.users.get userId).map fun u => (u.id, u.displayName)

/-- The wins of one match: the `GROUP BY` columns of its rows. -/
def userWinRows (w : World) (r : MatchRow) : List (UserId × String) :=
  (w.winners r).filterMap fun p => w.userKey p.userId

/-- The pairs of one match, the user with the smaller id first. -/
def pairWinRows (w : World) (r : MatchRow) : List ((UserId × String) × (UserId × String)) :=
  (w.winners r).flatMap fun p =>
    ((w.roster r.id).filter fun q => q.team = p.team ∧ p.userId < q.userId).filterMap fun q => do
      let userA ← w.userKey p.userId
      let userB ← w.userKey q.userId
      some (userA, userB)

/-- `getUserWins` without its limit. -/
def userWins (w : World) (startDate : Option Date) : List UserWinEntry :=
  (tally ((w.countedMatches startDate).flatMap w.userWinRows)).map fun entry =>
    ⟨entry.1.1, entry.1.2, entry.2⟩

/-- `getPairWins` without its limit. -/
def pairWins (w : World) (startDate : Option Date) : List PairWinEntry :=
  (tally ((w.countedMatches startDate).flatMap w.pairWinRows)).map fun entry =>
    ⟨entry.1.1.1, entry.1.1.2, entry.1.2.1, entry.1.2.2, entry.2⟩

/-! ## What the queries read -/

variable {w w' : World}

theorem userKey_congr (husers : w'.users = w.users) : w'.userKey = w.userKey := by
  funext userId
  rw [userKey, userKey, husers]

theorem roster_congr (hplayers : w'.players = w.players) : w'.roster = w.roster := by
  funext matchId
  rw [roster, roster, hplayers]

theorem winners_congr (hplayers : w'.players = w.players) : w'.winners = w.winners := by
  funext r
  rw [winners, winners, roster_congr hplayers]

theorem userWinRows_congr (hplayers : w'.players = w.players) (husers : w'.users = w.users) :
    w'.userWinRows = w.userWinRows := by
  funext r
  rw [userWinRows, userWinRows, winners_congr hplayers, userKey_congr husers]

theorem pairWinRows_congr (hplayers : w'.players = w.players) (husers : w'.users = w.users) :
    w'.pairWinRows = w.pairWinRows := by
  funext r
  rw [pairWinRows, pairWinRows, winners_congr hplayers, roster_congr hplayers,
    userKey_congr husers]

/-- The queries read the matches, their players and the users. -/
theorem userWins_congr (hrows : w'.matchRows = w.matchRows) (hplayers : w'.players = w.players)
    (husers : w'.users = w.users) : w'.userWins = w.userWins := by
  funext startDate
  rw [userWins, userWins, countedMatches, countedMatches, hrows, userWinRows_congr hplayers husers]

theorem pairWins_congr (hrows : w'.matchRows = w.matchRows) (hplayers : w'.players = w.players)
    (husers : w'.users = w.users) : w'.pairWins = w.pairWins := by
  funext startDate
  rw [pairWins, pairWins, countedMatches, countedMatches, hrows, pairWinRows_congr hplayers husers]

end World

end FoosballApi.Matches
