import FoosballApi.Matches.Repository

/-!
# The processors of the worker

What the worker does with the jobs of the queues. BullMQ delivers each job at least once, in any
order; a delivery of the job at some position of a queue takes the job and hands it to the queue's
processor.
-/

namespace FoosballApi.Worker

open Calls Events Leaderboard Matches

/-- `AuditLogProcessor.process(job)`. A payload of another event lacks the columns that cannot be
null. -/
def AuditLogProcessor.process (job : EventEnvelope) : Api Unit := do
  Prog.throwIf (job.version ≠ 1) (.plain s!"Unsupported event version: {job.version}")
  match job.payload with
  | .auditLog data => do
      let _ ← await (.saveAuditLog data)
      return ()
  | _ => Prog.throw .constraint

/-- A delivery of the job at a position of the audit queue; it fails when there is no job yet. -/
def deliverAudit (position : Nat) : Api Unit := do
  let job ← await (.takeJob .auditQueue position)
  let job ← Prog.require job .unavailable
  AuditLogProcessor.process job

namespace LeaderboardInvalidateProcessor

/-- The cache keys of the affected filters, in both scopes; `QUEUE_PREFIX` replaces their prefix. -/
def keysToDelete (queuePrefix : Option String) (affectedFilters : List TimeFilter) :
    List CacheKey :=
  [Scope.users, .pairs].flatMap fun scope =>
    affectedFilters.map fun filter => ⟨queuePrefix.getD "leaderboard", scope, filter⟩

/-- `LeaderboardInvalidateProcessor.process(job)`. A payload of another event has no
`affectedFilters`. -/
def process (queuePrefix : Option String) (job : EventEnvelope) : Api Unit := do
  Prog.throwIf (job.version ≠ 1) (.plain s!"Unsupported event version: {job.version}")
  match job.payload with
  | .leaderboardInvalidate _ affectedFilters =>
      let keys := keysToDelete queuePrefix affectedFilters
      if 0 < keys.length then await (.redisDel keys) else return ()
  | _ => Prog.throw (.plain "Cannot read properties of undefined (reading 'join')")

end LeaderboardInvalidateProcessor

/-- A delivery of the job at a position of the leaderboard queue. -/
def deliverLeaderboard (queuePrefix : Option String) (position : Nat) : Api Unit := do
  let job ← await (.takeJob .leaderboardQueue position)
  let job ← Prog.require job .unavailable
  LeaderboardInvalidateProcessor.process queuePrefix job

end FoosballApi.Worker
