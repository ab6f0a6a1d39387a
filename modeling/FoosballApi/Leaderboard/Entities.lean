import FoosballApi.Events.Envelope

/-!
# Entries, results and cache keys of the leaderboard

The rows the leaderboard queries return, the ranked lists built from them, and what is kept in
Redis: the JSON text of a result, held here as the value it denotes, under a key
`leaderboard:<scope>:<filter>`.
-/

namespace FoosballApi.Leaderboard

open Events Matches

/-- `UserWinEntry`. -/
structure UserWinEntry where
  userId : UserId
  displayName : String
  wins : Nat
  deriving DecidableEq, Repr

/-- `PairWinEntry`. -/
structure PairWinEntry where
  userAId : UserId
  userAName : String
  userBId : UserId
  userBName : String
  wins : Nat
  deriving DecidableEq, Repr

/-- An element of `LeaderboardUsersResult.data`. -/
structure RankedUser extends UserWinEntry where
  rank : Nat
  deriving DecidableEq, Repr

/-- `{ userId, displayName }`. -/
structure PlayerName where
  userId : UserId
  displayName : String
  deriving DecidableEq, Repr

/-- An element of `LeaderboardPairsResult.data`. -/
structure RankedPair where
  rank : Nat
  userA : PlayerName
  userB : PlayerName
  wins : Nat
  deriving DecidableEq, Repr

/-- The `data` of a result, of users or of pairs. -/
inductive LeaderboardData where
  | users (data : List RankedUser)
  | pairs (data : List RankedPair)
  deriving DecidableEq, Repr

/-- `{ filter, data, generatedAt }`, the object that is cached. -/
structure CachedResult where
  filter : TimeFilter
  data : LeaderboardData
  generatedAt : Date
  deriving DecidableEq, Repr

/-- `CacheStatus`: `'HIT' | 'MISS' | 'BYPASS'`. -/
inductive CacheStatus where
  | hit
  | miss
  | bypass
  deriving DecidableEq, Repr

/-- `LeaderboardUsersResult` and `LeaderboardPairsResult`. -/
structure LeaderboardResult extends CachedResult where
  cacheStatus : CacheStatus
  deriving DecidableEq, Repr

/-- `'users' | 'pairs'`. -/
inductive Scope where
  | users
  | pairs
  deriving DecidableEq, Repr

/-- The parts of a cache key, which are joined by colons. -/
structure CacheKey where
  keyPrefix : String
  scope : Scope
  filter : TimeFilter
  deriving DecidableEq, Repr

/-- A cached value with its time to live in seconds. -/
structure CacheEntry where
  key : CacheKey
  value : CachedResult
  ttl : Nat
  deriving DecidableEq, Repr

end FoosballApi.Leaderboard
