import FoosballApi.Matches.Entities

/-!
# Exceptions

The `HttpException`s the services throw, with their status, code, message and details as the
source has them, and the other exceptions a call can end in. An exception that is not an
`HttpException` reaches the client as a 500 `INTERNAL_ERROR`.
-/

namespace FoosballApi.Matches

/-- A value in the `details` of an error. -/
inductive Detail where
  | number (value : Nat)
  | text (value : String)
  deriving DecidableEq, Repr

/-- An `HttpException` with an object response. -/
structure HttpException where
  status : Nat
  code : String
  message : String
  details : List (String × Detail) := []
  deriving DecidableEq, Repr

/-- What a service method can throw. -/
inductive Failure where
  | http (exception : HttpException)
  /-- An `Error` that is not an `HttpException`. -/
  | plain (message : String)
  /-- A statement rejected by a key, check or `NOT NULL` constraint. -/
  | constraint
  /-- `TransactionNotStartedError`: commit or rollback without an open transaction. -/
  | transactionNotStarted
  /-- A database or queue call that did not go through. -/
  | unavailable
  deriving DecidableEq, Repr

namespace Failure

/-- `MATCH_NOT_FOUND`. -/
def matchNotFound (matchId : MatchId) : Failure :=
  .http ⟨404, "MATCH_NOT_FOUND", s!"Match {matchId} does not exist", []⟩

/-- `FORBIDDEN_NOT_CREATOR`, with the message of the operation. -/
def forbiddenNotCreator (message : String) : Failure :=
  .http ⟨403, "FORBIDDEN_NOT_CREATOR", message, []⟩

/-- `FORBIDDEN_ADMIN_REQUIRED`. -/
def forbiddenAdminRequired : Failure :=
  .http ⟨403, "FORBIDDEN_ADMIN_REQUIRED", "This action requires admin privileges", []⟩

/-- `MATCH_LOCKED`, with the message of the operation. -/
def matchLocked (message : String) (matchId : MatchId) (status : MatchStatus) : Failure :=
  .http ⟨409, "MATCH_LOCKED", message,
    [("matchId", .number matchId), ("status", .text status.text)]⟩

/-- `CAPACITY_EXCEEDED`. -/
def capacityExceeded (matchType : MatchType) (capacity current : Nat) : Failure :=
  .http ⟨400, "CAPACITY_EXCEEDED",
    s!"{matchType.text} match supports {capacity} players; currently {current}",
    [("capacity", .number capacity), ("current", .number current)]⟩

/-- `SLOT_CONFLICT`. -/
def slotConflict (matchId : MatchId) (team : Team) (slot : Nat) : Failure :=
  .http ⟨400, "SLOT_CONFLICT", s!"Team {team.text} slot {slot} is already occupied",
    [("matchId", .number matchId), ("team", .text team.text), ("slot", .number slot)]⟩

/-- `INSUFFICIENT_PLAYERS`. -/
def insufficientPlayers (matchType : MatchType) (capacity registered : Nat) : Failure :=
  .http ⟨400, "INSUFFICIENT_PLAYERS",
    s!"{matchType.text} match requires {capacity} players ({capacity / 2} per team); only {registered} registered",
    [("required", .number capacity), ("registered", .number registered)]⟩

/-- `MATCH_NOT_AWAITING_CONFIRMATION`. -/
def matchNotAwaitingConfirmation (status : MatchStatus) : Failure :=
  .http ⟨409, "MATCH_NOT_AWAITING_CONFIRMATION", "Match is not in awaiting_confirmation status",
    [("status", .text status.text)]⟩

/-- `NOT_A_PLAYER`. -/
def notAPlayer : Failure :=
  .http ⟨403, "NOT_A_PLAYER", "You are not registered as a player in this match", []⟩

/-- `MATCH_ALREADY_CONFIRMED`. -/
def matchAlreadyConfirmed (matchId : MatchId) (status : MatchStatus) : Failure :=
  .http ⟨409, "MATCH_ALREADY_CONFIRMED", "A confirmed match result cannot be cancelled",
    [("matchId", .number matchId), ("status", .text status.text)]⟩

/-- `MATCH_NOT_CONFIRMED`. -/
def matchNotConfirmed (status : MatchStatus) : Failure :=
  .http ⟨409, "MATCH_NOT_CONFIRMED", "Admin result override only applies to confirmed matches",
    [("status", .text status.text)]⟩

/-- `AUDIT_LOG_WRITE_FAILED`. -/
def auditLogWriteFailed : Failure :=
  .http ⟨500, "AUDIT_LOG_WRITE_FAILED",
    "Audit log could not be written; operation rolled back", []⟩

end Failure

end FoosballApi.Matches
