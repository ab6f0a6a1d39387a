import FoosballApi.Matches.Repository

/-!
# `ConfirmationService`

Voting on a submitted result. `confirm` reads the match and its players, then opens a transaction,
reads the match again `FOR UPDATE`, writes the caller's vote and, when the quorum is reached,
confirms the match; the events follow the commit. `cancel` works on unlocked reads.

`confirm` is one method in the source; its `try` block is split here at its branches.
-/

namespace FoosballApi.Matches

open Calls Events

/-- `ConfirmationStatusResult`. -/
structure ConfirmationStatusResult where
  matchId : MatchId
  totalPlayers : Nat
  confirmedCount : Nat
  quorumRequired : Nat
  quorumReached : Bool
  confirmations : List (UserId × Date)
  deriving DecidableEq, Repr

/-- `Math.floor(totalPlayers / 2) + 1`. -/
def calculateQuorum (totalPlayers : Nat) : Nat := totalPlayers / 2 + 1

/-- The status the methods return for a player count and a list of votes. -/
def statusOf (matchId : MatchId) (totalPlayers : Nat)
    (confirmations : List MatchConfirmationEntity) : ConfirmationStatusResult where
  matchId := matchId
  totalPlayers := totalPlayers
  confirmedCount := confirmations.length
  quorumRequired := calculateQuorum totalPlayers
  quorumReached := calculateQuorum totalPlayers ≤ confirmations.length
  confirmations := confirmations.map fun c => (c.userId, c.confirmedAt)

/-- The winner for two scores. -/
def winnerTeam (scoreA scoreB : Score) : WinnerTeam :=
  if scoreB < scoreA then .team .A else if scoreA < scoreB then .team .B else .draw

namespace ConfirmationService

/-- `getStatus(matchId)`. -/
def getStatus (matchId : MatchId) : Api ConfirmationStatusResult := do
  let m ← Prog.require (← await (.findById matchId)) (.matchNotFound matchId)
  Prog.throwIf (m.status ≠ .awaitingConfirmation) (.matchNotAwaitingConfirmation m.status)
  let players ← await (.findPlayers matchId)
  let confirmations ← await (.findConfirmations matchId)
  return statusOf matchId players.length confirmations

/-- The branch of `confirm` for a match that is no longer awaiting confirmation: end the
transaction and report the current votes. -/
def reportCurrent (matchId : MatchId) (players : List MatchPlayerEntity) :
    Api ConfirmationStatusResult := do
  await .rollbackTransaction
  let confirmations ← await (.findConfirmations matchId)
  return statusOf matchId players.length confirmations

/-- `if (!existing) …save(confirmation)`. -/
def saveVote (matchId : MatchId) (userId : UserId) (existing : Option MatchConfirmationEntity) :
    Api Unit :=
  match existing with
  | some _ => return ()
  | none => do
      let _ ← await (.saveConfirmation matchId userId)
      return ()

/-- The `quorumReached` branch of `confirm`: confirm the match, commit, and publish. -/
def confirmMatch (matchId : MatchId) (m : MatchEntity) : Api Unit := do
  let confirmedAt ← await .now
  let m := { m with
    status := .confirmed, confirmedAt := some confirmedAt, lockedAt := some confirmedAt }
  let _ ← await (.saveMatch m)
  let scoreA := m.scoreA.getD 0
  let scoreB := m.scoreB.getD 0
  await .commitTransaction
  let occurredAt ← await .now
  await (.add .matchesQueue
    { eventType := .matchConfirmed
      version := 1
      occurredAt := occurredAt
      payload := .matchConfirmed matchId (winnerTeam scoreA scoreB) scoreA scoreB confirmedAt })
  let occurredAt ← await .now
  await (.add .leaderboardQueue
    { eventType := .leaderboardInvalidate
      version := 1
      occurredAt := occurredAt
      payload := .leaderboardInvalidate .matchConfirmed [.week, .month, .year, .total] })

/-- The end of the locked section: confirm the match when the votes reach the quorum, else only
commit. -/
def settle (matchId : MatchId) (players : List MatchPlayerEntity) (m : MatchEntity)
    (allConfirmations : List MatchConfirmationEntity) : Api ConfirmationStatusResult := do
  if calculateQuorum players.length ≤ allConfirmations.length then
    confirmMatch matchId m
    return statusOf matchId players.length allConfirmations
  else
    await .commitTransaction
    return statusOf matchId players.length allConfirmations

/-- The branch of `confirm` for a match awaiting confirmation: vote, then settle. -/
def castVote (matchId : MatchId) (userId : UserId) (players : List MatchPlayerEntity)
    (m : MatchEntity) : Api ConfirmationStatusResult := do
  let existing ← await (.findOneConfirmation matchId userId)
  saveVote matchId userId existing
  let allConfirmations ← await (.findTransactionConfirmations matchId)
  settle matchId players m allConfirmations

/-- The `try` block of `confirm`. -/
def lockedSection (matchId : MatchId) (userId : UserId) (players : List MatchPlayerEntity) :
    Api ConfirmationStatusResult := do
  let found ← await (.findMatchForUpdate matchId)
  match found.filter (·.status = .awaitingConfirmation) with
  | none => reportCurrent matchId players
  | some m => castVote matchId userId players m

/-- `confirm(matchId, userId)`. -/
def confirm (matchId : MatchId) (userId : UserId) : Api ConfirmationStatusResult := do
  let matchPreCheck ← Prog.require (← await (.findById matchId)) (.matchNotFound matchId)
  Prog.throwIf (matchPreCheck.status ≠ .awaitingConfirmation)
    (.matchNotAwaitingConfirmation matchPreCheck.status)
  let players ← await (.findPlayers matchId)
  Prog.throwIf (¬ IsPlayer (players.map (·.userId)) userId) .notAPlayer
  await .connect
  await .startTransaction
  Prog.catchFinally (lockedSection matchId userId players)
    (fun err => do
      await .rollbackTransaction
      Prog.throw err)
    (await .release)

/-- `cancel(matchId, userId)`. -/
def cancel (matchId : MatchId) (userId : UserId) : Api ConfirmationStatusResult := do
  let m ← Prog.require (← await (.findById matchId)) (.matchNotFound matchId)
  Prog.throwIf (m.status = .confirmed) (.matchAlreadyConfirmed matchId m.status)
  Prog.throwIf (m.status ≠ .awaitingConfirmation) (.matchNotAwaitingConfirmation m.status)
  Prog.throwIf (NotCreator m.createdBy userId)
    (.forbiddenNotCreator "Only the match creator can cancel the confirmation phase")
  await (.deleteAllConfirmations matchId)
  let _ ← await (.save { m with status := .playing })
  let occurredAt ← await .now
  await (.add .matchesQueue
    { eventType := .matchConfirmationCancelled
      version := 1
      occurredAt := occurredAt
      payload := .matchCancelled matchId userId })
  let players ← await (.findPlayers matchId)
  return { matchId := matchId
           totalPlayers := players.length
           confirmedCount := 0
           quorumRequired := calculateQuorum players.length
           quorumReached := false
           confirmations := [] }

end ConfirmationService

end FoosballApi.Matches
