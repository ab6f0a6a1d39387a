import FoosballApi.Matches.Repository

/-!
# `AdminOverrideService`

Overriding the result of a confirmed match, deleting any match, and reading the audit log of a
match. `overrideResult` writes the match and the audit row in one transaction and publishes two
events before the commit; whatever fails in its `try` block is answered by a rollback and
`AUDIT_LOG_WRITE_FAILED`.
-/

namespace FoosballApi.Matches

open Calls Events

/-- `AdminOverrideResult`. -/
structure AdminOverrideResult where
  matchEntity : MatchEntity
  auditLog : AuditLogEntity
  deriving DecidableEq, Repr

namespace AdminOverrideService

/-- The columns of the audit row of an override; the event's payload carries the same fields. -/
def overrideAuditData (m : MatchEntity) (matchId : MatchId) (actorId : UserId)
    (dto : AdminOverrideResultDto) : AuditLogData where
  actorId := some actorId
  action := .resultOverride
  entityType := .matchEntity
  entityId := matchId
  beforeData := .scores m.scoreA m.scoreB
  afterData := .scores (some dto.scoreA) (some dto.scoreB)
  reason := dto.reason

/-- The `try` block of `overrideResult`. -/
def overrideTransaction (matchId : MatchId) (actorId : UserId) (dto : AdminOverrideResultDto)
    (m : MatchEntity) : Api AdminOverrideResult := do
  let auditData := overrideAuditData m matchId actorId dto
  let saved ← await (.saveMatch { m with scoreA := some dto.scoreA, scoreB := some dto.scoreB })
  let auditLog ← await (.saveTransactionAuditLog auditData)
  let occurredAt ← await .now
  await (.add .auditQueue
    { eventType := .auditLogWrite
      version := 1
      occurredAt := occurredAt
      payload := .auditLog auditData })
  let occurredAt ← await .now
  await (.add .leaderboardQueue
    { eventType := .leaderboardInvalidate
      version := 1
      occurredAt := occurredAt
      payload := .leaderboardInvalidate .adminResultOverride [.week, .month, .year, .total] })
  await .commitTransaction
  let players ← await (.findPlayers matchId)
  return ⟨{ saved with players := some players }, auditLog⟩

/-- `overrideResult(matchId, actorId, isAdmin, dto)`. -/
def overrideResult (matchId : MatchId) (actorId : UserId) (isAdmin : Bool)
    (dto : AdminOverrideResultDto) : Api AdminOverrideResult := do
  Prog.throwIf (¬ isAdmin) .forbiddenAdminRequired
  let m ← Prog.require (← await (.findById matchId)) (.matchNotFound matchId)
  Prog.throwIf (m.status ≠ .confirmed) (.matchNotConfirmed m.status)
  await .connect
  await .startTransaction
  Prog.catchFinally (overrideTransaction matchId actorId dto m)
    (fun _ => do
      await .rollbackTransaction
      Prog.throw .auditLogWriteFailed)
    (await .release)

/-- The audit row of a deleted confirmed match. -/
def deleteAuditData (m : MatchEntity) (matchId : MatchId) (actorId : UserId) : AuditLogData where
  actorId := some actorId
  action := .matchDelete
  entityType := .matchEntity
  entityId := matchId
  beforeData := .scoresAndStatus m.scoreA m.scoreB m.status
  afterData := .empty
  reason := some "Admin deleted confirmed match"

/-- `if (match.status === 'confirmed') …saveAuditLog`. -/
def recordDelete (m : MatchEntity) (matchId : MatchId) (actorId : UserId) : Api Unit :=
  if m.status = .confirmed then do
    let _ ← await (.saveAuditLog (deleteAuditData m matchId actorId))
    return ()
  else
    return ()

/-- `deleteMatch(matchId, actorId, isAdmin)`. -/
def deleteMatch (matchId : MatchId) (actorId : UserId) (isAdmin : Bool) : Api Unit := do
  Prog.throwIf (¬ isAdmin) .forbiddenAdminRequired
  let m ← Prog.require (← await (.findById matchId)) (.matchNotFound matchId)
  recordDelete m matchId actorId
  await (.delete matchId)

/-- `getAuditLog(matchId, isAdmin)`. -/
def getAuditLog (matchId : MatchId) (isAdmin : Bool) : Api (List AuditLogEntity) := do
  Prog.throwIf (¬ isAdmin) .forbiddenAdminRequired
  let _ ← Prog.require (← await (.findById matchId)) (.matchNotFound matchId)
  await (.findAuditLogs .matchEntity matchId)

end AdminOverrideService

end FoosballApi.Matches
