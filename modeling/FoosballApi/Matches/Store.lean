import Mathlib.Data.List.Sort
import FoosballApi.Data.Table
import FoosballApi.Leaderboard.Entities
import FoosballApi.Users.Entities

/-!
# The state behind the services

`World` is everything the services share: the database tables, the three queues, the leaderboard
cache and the clock. The functions below are the effects of single statements on it, under the
schema of the migrations: primary keys (carried by `Table`), the unique slot index, the foreign keys
and the check constraint of `match_players`, and `ON DELETE CASCADE`.

`saveMatch` is `repository.save(match)`: it makes the own columns of the stored row equal to the
entity's and stamps `updated_at` when something changed; when the row is no longer stored it
inserts it again, together with the players loaded with it.
-/

namespace FoosballApi.Matches

open Data Events Leaderboard Users

/-- The `WHERE` conditions and the limit of the query that lists matches. -/
structure MatchQuery where
  status : Option MatchStatus
  matchType : Option MatchType
  createdBy : Option UserId
  cursor : Option CursorData
  take : Nat
  deriving DecidableEq

/-- A row satisfies the conditions of a query. -/
def MatchQuery.Admits (query : MatchQuery) (r : MatchRow) : Prop :=
  (∀ status ∈ query.status, r.status = status) ∧
    (∀ matchType ∈ query.matchType, r.matchType = matchType) ∧
    (∀ createdBy ∈ query.createdBy, r.createdBy = some createdBy) ∧
    ∀ cursor ∈ query.cursor, r.createdAt < cursor.createdAt ∨
      r.createdAt = cursor.createdAt ∧ r.id < cursor.id

instance (query : MatchQuery) (r : MatchRow) : Decidable (query.Admits r) :=
  inferInstanceAs (Decidable (_ ∧ _ ∧ _ ∧ _))

/-- `ORDER BY created_at DESC, id DESC`. -/
def listedBefore (r s : MatchRow) : Prop :=
  s.createdAt < r.createdAt ∨ s.createdAt = r.createdAt ∧ s.id ≤ r.id

instance (r s : MatchRow) : Decidable (listedBefore r s) := inferInstanceAs (Decidable (_ ∨ _))

/-- The database, the queues, the cache and the clock. -/
structure World where
  users : Table UserEntity.id
  matchRows : Table MatchRow.id
  players : Table MatchPlayerEntity.key
  confirmations : Table MatchConfirmationEntity.key
  auditLogs : List AuditLogEntity
  matchesQueue : List EventEnvelope
  leaderboardQueue : List EventEnvelope
  auditQueue : List EventEnvelope
  cache : Table CacheEntry.key
  nextMatchId : MatchId
  nextAuditId : Nat
  clock : Date

namespace World

/-- A database with these users and nothing else. -/
def withUsers (users : Table UserEntity.id) : World where
  users := users
  matchRows := .empty _
  players := .empty _
  confirmations := .empty _
  auditLogs := []
  matchesQueue := []
  leaderboardQueue := []
  auditQueue := []
  cache := .empty _
  nextMatchId := 1
  nextAuditId := 1
  clock := 0

/-- The stored row of a match. -/
def row (w : World) (matchId : MatchId) : Option MatchRow := w.matchRows.get matchId

/-- The player rows of a match. -/
def roster (w : World) (matchId : MatchId) : List MatchPlayerEntity :=
  w.players.sel (·.matchId = matchId)

/-- The vote rows of a match. -/
def votes (w : World) (matchId : MatchId) : List MatchConfirmationEntity :=
  w.confirmations.sel (·.matchId = matchId)

/-! ## Statements -/

/-- `SELECT` of a match with its `players` relation. -/
def findById (w : World) (matchId : MatchId) : Option MatchEntity :=
  (w.row matchId).map fun r => ⟨r, some (w.roster matchId)⟩

/-- The `updated_at` that the save of an entity writes over a row: the column is stamped, unless the
entity brings another value than the row has. -/
def savedAt (w : World) (r : MatchRow) (m : MatchEntity) : Date :=
  if r.updatedAt = m.updatedAt then w.clock else m.updatedAt

/-- `save(match)`. -/
def saveMatch (w : World) (m : MatchEntity) : World :=
  match w.row m.id with
  | some r =>
      if r = m.toMatchRow then w
      else { w with matchRows := w.matchRows.put { m.toMatchRow with updatedAt := w.savedAt r m } }
  | none =>
      { w with
        matchRows := w.matchRows.put m.toMatchRow
        players := w.players.putAll (m.players.getD []) }

/-- The row `create` inserts. -/
def newMatch (w : World) (createdBy : UserId) (matchType : MatchType) (status : MatchStatus) :
    MatchRow :=
  { id := w.nextMatchId, createdBy := some createdBy, matchType := matchType, status := status
    scoreA := none, scoreB := none, createdAt := w.clock, updatedAt := w.clock
    confirmedAt := none, lockedAt := none }

/-- Insert a match row under the next id. -/
def insertMatch (w : World) (r : MatchRow) : World :=
  { w with matchRows := w.matchRows.put r, nextMatchId := w.nextMatchId + 1 }

/-- Delete a match; the foreign keys cascade to its players and confirmations. -/
def deleteMatch (w : World) (matchId : MatchId) : World :=
  { w with
    matchRows := w.matchRows.keep (·.id ≠ matchId)
    players := w.players.keep (·.matchId ≠ matchId)
    confirmations := w.confirmations.keep (·.matchId ≠ matchId) }

/-- Two player rows take the same slot of a team: the unique index forbids it. -/
def sameSlot (p q : MatchPlayerEntity) : Prop :=
  p.matchId = q.matchId ∧ p.team = q.team ∧ p.slot = q.slot

instance (p q : MatchPlayerEntity) : Decidable (sameSlot p q) :=
  inferInstanceAs (Decidable (_ ∧ _ ∧ _))

/-- A player row satisfies the foreign keys, the check constraint and the unique slot index of a
table, leaving aside the row it replaces. -/
def playerFits (w : World) (table : Table MatchPlayerEntity.key) (p : MatchPlayerEntity) : Prop :=
  (w.row p.matchId).isSome ∧ (w.users.get p.userId).isSome ∧ 1 ≤ p.slot ∧ p.slot ≤ 4 ∧
    ∀ q ∈ table.rows, q.key ≠ p.key → ¬ sameSlot q p

instance (w : World) (table : Table MatchPlayerEntity.key) (p : MatchPlayerEntity) :
    Decidable (w.playerFits table p) :=
  inferInstanceAs (Decidable (_ ∧ _ ∧ _ ∧ _ ∧ _))

/-- `INSERT` of a player row. -/
def insertPlayer (w : World) (table : Table MatchPlayerEntity.key) (p : MatchPlayerEntity) :
    Option (Table MatchPlayerEntity.key) :=
  if table.get p.key = none ∧ w.playerFits table p then some (table.put p) else none

/-- `UPDATE` of a player row. -/
def updatePlayer (w : World) (table : Table MatchPlayerEntity.key) (p : MatchPlayerEntity) :
    Option (Table MatchPlayerEntity.key) :=
  if w.playerFits table p then some (table.put p) else none

/-- The order in which `save(players)` writes: entities whose key is not stored are inserted, then
the others are updated. -/
def writeOrder (w : World) (ps : List MatchPlayerEntity) : List MatchPlayerEntity :=
  ps.filter (fun p => (w.players.get p.key).isNone) ++
    ps.filter (fun p => (w.players.get p.key).isSome)

/-- `save(players)`: one transaction, rejected as a whole when a row breaks a key. -/
def savePlayers (w : World) (ps : List MatchPlayerEntity) : Option World := do
  let inserted ← (ps.filter fun p => (w.players.get p.key).isNone).foldlM w.insertPlayer w.players
  let updated ← (ps.filter fun p => (w.players.get p.key).isSome).foldlM w.updatePlayer inserted
  some { w with players := updated }

/-- The vote `saveConfirmation` writes. -/
def newConfirmation (w : World) (matchId : MatchId) (userId : UserId) : MatchConfirmationEntity :=
  ⟨matchId, userId, w.clock⟩

/-- Write a vote row. -/
def putConfirmation (w : World) (c : MatchConfirmationEntity) : World :=
  { w with confirmations := w.confirmations.put c }

/-- Delete all votes of a match. -/
def deleteAllConfirmations (w : World) (matchId : MatchId) : World :=
  { w with confirmations := w.confirmations.keep (·.matchId ≠ matchId) }

/-- The audit row an insert produces. -/
def newAuditLog (w : World) (data : AuditLogData) : AuditLogEntity :=
  { data with id := w.nextAuditId, createdAt := w.clock }

/-- Take the next `audit_logs` id; an id is used up even when the insert is rolled back. -/
def takeAuditId (w : World) : World := { w with nextAuditId := w.nextAuditId + 1 }

/-- Append an audit row. -/
def appendAuditLog (w : World) (entry : AuditLogEntity) : World :=
  { w with auditLogs := w.auditLogs ++ [entry] }

/-- `SELECT` of the matches a query admits, without their players. -/
def getMany (w : World) (query : MatchQuery) : List MatchEntity :=
  (((w.matchRows.sel (query.Admits ·)).insertionSort listedBefore).take query.take).map
    fun r => ⟨r, none⟩

/-- Another user has the email or the directory id of a row: the unique indexes forbid it. -/
def userFits (w : World) (user : UserEntity) : Prop :=
  ∀ other ∈ w.users.rows, other.id ≠ user.id →
    other.email ≠ user.email ∧ other.azureOid ≠ user.azureOid

instance (w : World) (user : UserEntity) : Decidable (w.userFits user) :=
  inferInstanceAs (Decidable (∀ _ ∈ _, _))

/-- `save(user)`. -/
def saveUser (w : World) (user : UserEntity) : Option World :=
  if w.userFits user then some { w with users := w.users.put user } else none

/-- The next `users` id. Users are never deleted, so it is above all stored ids. -/
def nextUserId (w : World) : UserId := (w.users.rows.map (·.id)).foldr max 0 + 1

/-- The row that `save` inserts for a user who signs in for the first time. -/
def newUser (w : World) (azureOid email displayName : String) : UserEntity :=
  ⟨w.nextUserId, azureOid, email, displayName, false⟩

/-- `update(id, { displayName })`. -/
def renameUser (w : World) (id : UserId) (displayName : String) : World :=
  match w.users.get id with
  | some user => { w with users := w.users.put { user with displayName := displayName } }
  | none => w

/-- `redis.set`. -/
def setCache (w : World) (entry : CacheEntry) : World := { w with cache := w.cache.put entry }

/-- `redis.del`. -/
def delCache (w : World) (keys : List CacheKey) : World :=
  { w with cache := w.cache.keep (·.key ∉ keys) }

/-- The jobs that were added to a queue; BullMQ may deliver each of them any number of times. -/
def queued (w : World) : Queue → List EventEnvelope
  | .matchesQueue => w.matchesQueue
  | .leaderboardQueue => w.leaderboardQueue
  | .auditQueue => w.auditQueue

/-- `queue.add`. -/
def enqueue (w : World) (queue : Queue) (job : EventEnvelope) : World :=
  match queue with
  | .matchesQueue => { w with matchesQueue := w.matchesQueue ++ [job] }
  | .leaderboardQueue => { w with leaderboardQueue := w.leaderboardQueue ++ [job] }
  | .auditQueue => { w with auditQueue := w.auditQueue ++ [job] }

end World

end FoosballApi.Matches
