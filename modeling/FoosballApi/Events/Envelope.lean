import FoosballApi.Matches.Entities

/-!
# Queues and event envelopes

The jobs that travel over the three BullMQ queues: `EventEnvelope<T>` with its payloads. A job is
added under the name of its event type, so the envelope's `eventType` is also the job's name.
-/

namespace FoosballApi.Events

open Matches

/-- The queues: `QUEUE_MATCHES`, `QUEUE_LEADERBOARD`, `QUEUE_AUDIT`. -/
inductive Queue where
  | matchesQueue
  | leaderboardQueue
  | auditQueue
  deriving DecidableEq, Repr

/-- The event types, which are also the job names. -/
inductive EventType where
  | matchConfirmed
  | matchConfirmationCancelled
  | matchResultSubmitted
  | leaderboardInvalidate
  | auditLogWrite
  deriving DecidableEq, Repr

/-- The text of an event type. -/
def EventType.text : EventType → String
  | .matchConfirmed => "match.confirmed"
  | .matchConfirmationCancelled => "match.confirmation_cancelled"
  | .matchResultSubmitted => "match.result_submitted"
  | .leaderboardInvalidate => "leaderboard-invalidate"
  | .auditLogWrite => "audit-log-write"

/-- `winnerTeam`: `'A' | 'B' | 'draw'`. -/
inductive WinnerTeam where
  | team (winner : Team)
  | draw
  deriving DecidableEq, Repr

/-- The time filters of the leaderboard. -/
inductive TimeFilter where
  | week
  | month
  | year
  | total
  deriving DecidableEq, Repr

/-- The `reason` of a leaderboard invalidation. -/
inductive InvalidateReason where
  | matchConfirmed
  | adminResultOverride
  deriving DecidableEq, Repr

/-- The text of an invalidation reason. -/
def InvalidateReason.text : InvalidateReason → String
  | .matchConfirmed => "match.confirmed"
  | .adminResultOverride => "admin.result_override"

/-- The payload types of the events. -/
inductive Payload where
  | matchConfirmed (matchId : MatchId) (winnerTeam : WinnerTeam) (scoreA scoreB : Score)
      (confirmedAt : Date)
  | matchCancelled (matchId : MatchId) (cancelledBy : UserId)
  | matchResultSubmitted (matchId : MatchId) (matchType : MatchType) (scoreA scoreB : Score)
  | leaderboardInvalidate (reason : InvalidateReason) (affectedFilters : List TimeFilter)
  | auditLog (data : AuditLogData)
  deriving DecidableEq, Repr

/-- `EventEnvelope<T>`, the data of a job. -/
structure EventEnvelope where
  eventType : EventType
  version : Nat
  occurredAt : Date
  payload : Payload
  deriving DecidableEq, Repr

end FoosballApi.Events
