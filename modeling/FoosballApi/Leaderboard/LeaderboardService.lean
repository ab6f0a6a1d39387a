import FoosballApi.Matches.Repository
import FoosballApi.Text.LocalTime

/-!
# The leaderboard service

`LeaderboardRepository`, `LeaderboardService` and the query parameters of its two routes. The two
methods of the service differ in the query they make and in the shape of its rows.
-/

namespace FoosballApi.Leaderboard

open Calls Events Matches Text

/-- `LeaderboardQueryDto`. -/
structure LeaderboardQueryDto where
  filter : Option TimeFilter
  limit : Option Nat
  limit_min : ∀ n ∈ limit, 1 ≤ n
  limit_max : ∀ n ∈ limit, n ≤ 100

/-- The days a filter looks back; `total` has no start. -/
def windowDays : TimeFilter → Option Nat
  | .week => some 7
  | .month => some 30
  | .year => some 365
  | .total => none

/-- The start of the window of a filter: so many dates back by the calendar of the process. No row
is older than 1970. -/
def windowStart [TimeZone] (now : Date) (filter : TimeFilter) : Option Date :=
  (windowDays filter).map fun days => (daysBefore days now).toNat

namespace LeaderboardRepository

/-- `getStartDate(filter)`. -/
def getStartDate [TimeZone] : TimeFilter → Api (Option Date)
  | .total => return none
  | filter => do return windowStart (← await .now) filter

/-- `getUserWins(filter, limit)`. -/
def getUserWins [TimeZone] (filter : TimeFilter) (limit : Nat) : Api (List UserWinEntry) := do
  let startDate ← getStartDate filter
  await (.queryUserWins startDate limit)

/-- `getPairWins(filter, limit)`. -/
def getPairWins [TimeZone] (filter : TimeFilter) (limit : Nat) : Api (List PairWinEntry) := do
  let startDate ← getStartDate filter
  await (.queryPairWins startDate limit)

end LeaderboardRepository

/-- `{ rank: i + 1, ...entry }` for each entry. -/
def rankUsers (entries : List UserWinEntry) : List RankedUser :=
  entries.zipIdx.map fun (entry, i) => ⟨entry, i + 1⟩

/-- `{ rank: i + 1, userA, userB, wins }` for each entry. -/
def rankPairs (entries : List PairWinEntry) : List RankedPair :=
  entries.zipIdx.map fun (entry, i) =>
    ⟨i + 1, ⟨entry.userAId, entry.userAName⟩, ⟨entry.userBId, entry.userBName⟩, entry.wins⟩

namespace LeaderboardService

/-- `CACHE_TTL`, in seconds. -/
def cacheTtl : TimeFilter → Nat
  | .week => 300
  | .month => 300
  | .year => 3600
  | .total => 3600

/-- `cacheKey(scope, filter)`. -/
def cacheKey (scope : Scope) (filter : TimeFilter) : CacheKey := ⟨"leaderboard", scope, filter⟩

/-- The ranked list of a scope, from the repository query. -/
def ranked [TimeZone] (scope : Scope) (filter : TimeFilter) (limit : Nat) : Api LeaderboardData :=
  match scope with
  | .users => do return .users (rankUsers (← LeaderboardRepository.getUserWins filter limit))
  | .pairs => do return .pairs (rankPairs (← LeaderboardRepository.getPairWins filter limit))

/-- The body of `getUserLeaderboard` and `getPairLeaderboard`. -/
def getLeaderboard [TimeZone] (scope : Scope) (filter : TimeFilter) (limit : Nat) :
    Api LeaderboardResult := do
  let key := cacheKey scope filter
  let generatedAt ← await .now
  match ← Prog.attempt (await (.redisGet key)) with
  | .ok (some parsed) => return ⟨parsed, .hit⟩
  | .error _ => do
      let data ← ranked scope filter limit
      return ⟨⟨filter, data, generatedAt⟩, .bypass⟩
  | .ok none => do
      let data ← ranked scope filter limit
      let result : CachedResult := ⟨filter, data, generatedAt⟩
      let _ ← Prog.attempt (await (.redisSet key result (cacheTtl filter)))
      return ⟨result, .miss⟩

/-- `getUserLeaderboard(filter, limit)`. -/
def getUserLeaderboard [TimeZone] (filter : TimeFilter) (limit : Nat) : Api LeaderboardResult :=
  getLeaderboard .users filter limit

/-- `getPairLeaderboard(filter, limit)`. -/
def getPairLeaderboard [TimeZone] (filter : TimeFilter) (limit : Nat) : Api LeaderboardResult :=
  getLeaderboard .pairs filter limit

end LeaderboardService

/-- The leaderboard routes, with the defaults of their parameters. -/
def LeaderboardQueryDto.run [TimeZone] (dto : LeaderboardQueryDto) (scope : Scope) :
    Api LeaderboardResult :=
  let filter := dto.filter.getD .total
  let limit := dto.limit.getD 20
  match scope with
  | .users => LeaderboardService.getUserLeaderboard filter limit
  | .pairs => LeaderboardService.getPairLeaderboard filter limit

end FoosballApi.Leaderboard

namespace FoosballApi.Matches.World

open Events Leaderboard Text

/-- The ranked list of a scope over the stored matches. -/
def ranked [TimeZone] (w : World) (scope : Scope) (filter : TimeFilter) (limit : Nat) :
    LeaderboardData :=
  match scope with
  | .users => .users (rankUsers ((w.userWins (windowStart w.clock filter)).take limit))
  | .pairs => .pairs (rankPairs ((w.pairWins (windowStart w.clock filter)).take limit))

/-- The number of rows of a scope without a limit. -/
def rankedCount [TimeZone] (w : World) (scope : Scope) (filter : TimeFilter) : Nat :=
  match scope with
  | .users => (w.userWins (windowStart w.clock filter)).length
  | .pairs => (w.pairWins (windowStart w.clock filter)).length

end FoosballApi.Matches.World
