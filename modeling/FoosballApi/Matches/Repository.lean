import FoosballApi.Calls.RelyGuarantee
import FoosballApi.Leaderboard.Queries
import FoosballApi.Matches.Errors

/-!
# The calls of the services

`Call` lists the awaited calls the services make: the methods of `MatchRepository`, those of a
TypeORM query runner and its entity manager, the user and leaderboard statements, `queue.add`, the
Redis commands, and reading the clock. `exec` is their effect on the caller's `Session` and on the
`World`.

A session is the state of the request's query runner. The writes of an open transaction are
buffered in it and reach the world when the transaction commits; its own reads see them. A
`FOR UPDATE` read makes the session hold the lock until commit or rollback.
-/

namespace FoosballApi.Matches

open Calls Data Events Leaderboard Users

/-- The awaited calls of the services. -/
inductive Call where
  -- `MatchRepository`
  | findById (id : MatchId)
  | save (m : MatchEntity)
  | create (createdBy : UserId) (matchType : MatchType) (status : MatchStatus)
  | delete (id : MatchId)
  | findPlayers (matchId : MatchId)
  | savePlayers (players : List MatchPlayerEntity)
  | findConfirmations (matchId : MatchId)
  | deleteAllConfirmations (matchId : MatchId)
  | saveAuditLog (data : AuditLogData)
  | findAuditLogs (entityType : EntityType) (entityId : MatchId)
  | getMany (query : MatchQuery)
  -- `QueryRunner`
  | connect
  | startTransaction
  | commitTransaction
  | rollbackTransaction
  | release
  -- `queryRunner.manager`
  | findMatchForUpdate (id : MatchId)
  | findOneConfirmation (matchId : MatchId) (userId : UserId)
  | saveConfirmation (matchId : MatchId) (userId : UserId)
  | findTransactionConfirmations (matchId : MatchId)
  | saveMatch (m : MatchEntity)
  | saveTransactionAuditLog (data : AuditLogData)
  -- The user repository, the leaderboard queries and `Redis`
  | findByAzureOid (azureOid : String)
  | findUserById (id : UserId)
  | saveUser (user : UserEntity)
  | insertUser (azureOid email displayName : String)
  | renameUser (id : UserId) (displayName : String)
  | queryUserWins (startDate : Option Date) (limit : Nat)
  | queryPairWins (startDate : Option Date) (limit : Nat)
  | redisGet (key : CacheKey)
  | redisSet (key : CacheKey) (value : CachedResult) (ttl : Nat)
  | redisDel (keys : List CacheKey)
  -- `Queue` and `Date`
  | add (queue : Queue) (job : EventEnvelope)
  | now
  -- The worker takes a job from a queue.
  | takeJob (queue : Queue) (position : Nat)
  -- No service makes these: a login writes a user row, and time passes.
  | signIn (user : UserEntity)
  | tick (elapsed : Nat)
  deriving DecidableEq

/-- The result of a call. -/
@[reducible] def Call.Result : Call → Type
  | .findById _ => Option MatchEntity
  | .save _ => MatchEntity
  | .create .. => MatchEntity
  | .findPlayers _ => List MatchPlayerEntity
  | .savePlayers _ => List MatchPlayerEntity
  | .findConfirmations _ => List MatchConfirmationEntity
  | .saveAuditLog _ => AuditLogEntity
  | .findAuditLogs .. => List AuditLogEntity
  | .getMany _ => List MatchEntity
  | .findMatchForUpdate _ => Option MatchEntity
  | .findOneConfirmation .. => Option MatchConfirmationEntity
  | .saveConfirmation .. => MatchConfirmationEntity
  | .findTransactionConfirmations _ => List MatchConfirmationEntity
  | .saveMatch _ => MatchEntity
  | .saveTransactionAuditLog _ => AuditLogEntity
  | .findByAzureOid _ | .findUserById _ => Option UserEntity
  | .saveUser _ | .insertUser .. => UserEntity
  | .queryUserWins .. => List UserWinEntry
  | .queryPairWins .. => List PairWinEntry
  | .redisGet _ => Option CachedResult
  | .now => Date
  | .takeJob .. => Option EventEnvelope
  | .renameUser .. | .redisSet .. | .redisDel _ | .delete _ | .deleteAllConfirmations _ | .connect
  | .startTransaction | .commitTransaction | .rollbackTransaction | .release | .add .. | .signIn _
  | .tick _ => Unit

/-- A write of an open transaction. -/
inductive Write where
  | saveMatch (m : MatchEntity)
  | putConfirmation (c : MatchConfirmationEntity)
  | appendAuditLog (entry : AuditLogEntity)
  deriving DecidableEq

/-- The effect of a transaction's write. -/
def Write.commit (w : World) : Write → World
  | .saveMatch m => w.saveMatch m
  | .putConfirmation c => w.putConfirmation c
  | .appendAuditLog entry => w.appendAuditLog entry

/-- The state of a request's query runner: the writes of the open transaction, in order, and
whether it holds the row lock. -/
structure Session where
  transaction : Option (List Write) := none
  locked : Bool := false
  deriving DecidableEq

namespace Session

/-- The world as the session's transaction sees it: with its own writes applied. -/
def view (s : Session) (w : World) : World := (s.transaction.getD []).foldl Write.commit w

@[simp] theorem view_some (changes : List Write) (locked : Bool) (w : World) :
    view ⟨some changes, locked⟩ w = changes.foldl Write.commit w := rfl

/-- Buffer one more write; without a transaction the manager writes through. -/
def write (s : Session) (w : World) (change : Write) : Session × World :=
  match s.transaction with
  | some changes => ({ s with transaction := some (changes ++ [change]) }, w)
  | none => (s, change.commit w)

/-- What is left of a session when its connection is handed back: nothing. `release` itself ends no
transaction, but a `ROLLBACK` fails only with its connection, and the server then ends the
transaction. -/
@[simp] def released (_ : Session) : Session := {}

end Session

/-- The entity `save` returns: its own columns as stored, its relations as they were. -/
def savedEntity (w : World) (m : MatchEntity) : MatchEntity :=
  { m with toMatchRow := (w.row m.id).getD m.toMatchRow }

/-- The audit rows of an entity, oldest first. -/
def World.findAuditLogs (w : World) (entityType : EntityType) (entityId : MatchId) :
    List AuditLogEntity :=
  (w.auditLogs.filter fun a => a.entityType = entityType ∧ a.entityId = entityId).mergeSort
    fun a b => a.createdAt ≤ b.createdAt

/-- The effect and result of each call. -/
def exec : (op : Call) → Session → World → Except Failure op.Result × Session × World
  | .findById id, s, w => (.ok (w.findById id), s, w)
  | .save m, s, w => (.ok (savedEntity (w.saveMatch m) m), s, w.saveMatch m)
  | .create createdBy matchType status, s, w =>
      let r := w.newMatch createdBy matchType status
      (.ok ⟨r, none⟩, s, w.insertMatch r)
  | .delete id, s, w => (.ok (), s, w.deleteMatch id)
  | .findPlayers matchId, s, w => (.ok (w.roster matchId), s, w)
  | .savePlayers players, s, w =>
      match w.savePlayers players with
      | some w' => (.ok players, s, w')
      | none => (.error .constraint, s, w)
  | .findConfirmations matchId, s, w => (.ok (w.votes matchId), s, w)
  | .deleteAllConfirmations matchId, s, w => (.ok (), s, w.deleteAllConfirmations matchId)
  | .saveAuditLog data, s, w =>
      let entry := w.newAuditLog data
      (.ok entry, s, w.takeAuditId.appendAuditLog entry)
  | .findAuditLogs entityType entityId, s, w => (.ok (w.findAuditLogs entityType entityId), s, w)
  | .getMany query, s, w => (.ok (w.getMany query), s, w)
  | .connect, s, w => (.ok (), s, w)
  | .startTransaction, s, w => (.ok (), { s with transaction := some [] }, w)
  | .commitTransaction, s, w =>
      match s.transaction with
      | some _ => (.ok (), {}, s.view w)
      | none => (.error .transactionNotStarted, s, w)
  | .rollbackTransaction, s, w =>
      match s.transaction with
      | some _ => (.ok (), {}, w)
      | none => (.error .transactionNotStarted, s, w)
  | .release, s, w => (.ok (), s.released, w)
  | .findMatchForUpdate id, s, w =>
      (.ok (((s.view w).row id).map fun r => ⟨r, none⟩), { s with locked := true }, w)
  | .findOneConfirmation matchId userId, s, w =>
      (.ok ((s.view w).confirmations.get (matchId, userId)), s, w)
  | .saveConfirmation matchId userId, s, w =>
      let c := w.newConfirmation matchId userId
      let (s', w') := s.write w (.putConfirmation c)
      (.ok c, s', w')
  | .findTransactionConfirmations matchId, s, w => (.ok ((s.view w).votes matchId), s, w)
  | .saveMatch m, s, w =>
      let (s', w') := s.write w (.saveMatch m)
      (.ok (savedEntity (s'.view w') m), s', w')
  | .saveTransactionAuditLog data, s, w =>
      let entry := w.newAuditLog data
      let (s', w') := s.write w.takeAuditId (.appendAuditLog entry)
      (.ok entry, s', w')
  | .findByAzureOid azureOid, s, w => (.ok (w.users.rows.find? (·.azureOid = azureOid)), s, w)
  | .findUserById id, s, w => (.ok (w.users.get id), s, w)
  | .saveUser user, s, w =>
      match w.saveUser user with
      | some w' => (.ok user, s, w')
      | none => (.error .constraint, s, w)
  | .insertUser azureOid email displayName, s, w =>
      let user := w.newUser azureOid email displayName
      match w.saveUser user with
      | some w' => (.ok user, s, w')
      | none => (.error .constraint, s, w)
  | .renameUser id displayName, s, w => (.ok (), s, w.renameUser id displayName)
  | .queryUserWins startDate limit, s, w => (.ok ((w.userWins startDate).take limit), s, w)
  | .queryPairWins startDate limit, s, w => (.ok ((w.pairWins startDate).take limit), s, w)
  | .redisGet key, s, w => (.ok ((w.cache.get key).map (·.value)), s, w)
  | .redisSet key value ttl, s, w => (.ok (), s, w.setCache ⟨key, value, ttl⟩)
  | .redisDel keys, s, w => (.ok (), s, w.delCache keys)
  | .add queue job, s, w => (.ok (), s, w.enqueue queue job)
  | .now, s, w => (.ok w.clock, s, w)
  | .takeJob queue position, s, w => (.ok (w.queued queue)[position]?, s, w)
  | .signIn user, s, w => (.ok (), s, { w with users := w.users.put user })
  | .tick elapsed, s, w => (.ok (), s, { w with clock := w.clock + elapsed })

/-- Only a `FOR UPDATE` read takes the lock. -/
theorem exec_locked {op : Call} {s : Session} {w : World} (h : (exec op s w).2.1.locked = true) :
    s.locked = true ∨ ∃ id, op = .findMatchForUpdate id := by
  cases op with
  | findMatchForUpdate id => exact .inr ⟨id, rfl⟩
  | savePlayers | saveUser | insertUser =>
      simp only [exec] at h
      split at h <;> exact .inl h
  | commitTransaction | rollbackTransaction =>
      simp only [exec] at h
      split at h
      · cases h
      · exact .inl h
  | release => cases h
  | saveConfirmation | saveMatch | saveTransactionAuditLog =>
      simp only [exec, Session.write] at h
      split at h <;> exact .inl h
  | _ => exact .inl h

/-- The calls of the services over the world. Every awaited call can fail; `new Date()` cannot. From
a `FOR UPDATE` read to the end of its transaction no other session makes a call: what is proved of
every run of `system` takes a confirmation's locked section as one step. The row that a transaction
updates without such a read is not locked, which only admits more runs. -/
def system : System Call Call.Result Failure Session World where
  exec := exec
  fault
    | .now => none
    | _ => some .unavailable
  held := Session.locked
  waits _ := true
  enter _ _ _ _ := .inr rfl

/-- A service method: a program of calls that returns `α` or throws. -/
abbrev Api (α : Type) := Prog Call Call.Result Failure α

/-- Issue one call. -/
abbrev await (op : Call) : Api op.Result := Prog.perform op

end FoosballApi.Matches
