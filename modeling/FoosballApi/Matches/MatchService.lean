import FoosballApi.Matches.Repository

/-!
# `MatchService`

The methods of the match service, call by call. The checks an operation makes are guards in the
order of the source; the entity is read once and, as in the source, the copy in memory is what a
later `save` writes back.
-/

namespace FoosballApi.Matches

open Calls Events

/-- `ep.team === p.team && ep.slot === p.slot` for some registered player `ep`. -/
def slotTaken (existingPlayers : List MatchPlayerEntity) (p : PlayerDto) : Bool :=
  existingPlayers.any fun ep => ep.team = p.team && ep.slot = p.slot

namespace MatchService

/-- `create(userId, dto)`. -/
def create (userId : UserId) (dto : CreateMatchDto) : Api MatchEntity := do
  let m ← await (.create userId (dto.matchType.getD .twoVsTwo) .draft)
  return { m with players := some [] }

/-- `findById(matchId)`. -/
def findById (matchId : MatchId) : Api MatchEntity := do
  let m ← Prog.require (← await (.findById matchId)) (.matchNotFound matchId)
  match m.players with
  | some _ => return m
  | none =>
      let players ← await (.findPlayers matchId)
      return { m with players := some players }

/-- The checks `update`, `addPlayers` and `submitResult` share: the caller created the match, and
it is neither in confirmation nor confirmed. -/
def checkEditable (matchId : MatchId) (m : MatchEntity) (userId : UserId)
    (notCreator locked : String) : Api Unit := do
  Prog.throwIf (NotCreator m.createdBy userId) (.forbiddenNotCreator notCreator)
  Prog.throwIf m.status.Locked (.matchLocked locked matchId m.status)

/-- The message of `update` and `addPlayers` on a locked match. -/
def cannotModify : String := "Cannot modify a match in awaiting_confirmation or confirmed status"

/-- `update(matchId, userId, dto)`. -/
def update (matchId : MatchId) (userId : UserId) (dto : UpdateMatchDto) : Api MatchEntity := do
  let m ← findById matchId
  checkEditable matchId m userId "Only the match creator can update this match" cannotModify
  let m := { m with scoreA := dto.scoreA.getD m.scoreA, scoreB := dto.scoreB.getD m.scoreB }
  let saved ← await (.save m)
  let players ← await (.findPlayers matchId)
  return { saved with players := some players }

/-- `delete(matchId, userId, isAdmin)`. -/
def delete (matchId : MatchId) (_userId : UserId) (isAdmin : Bool) : Api Unit := do
  Prog.throwIf (¬ isAdmin) .forbiddenAdminRequired
  let _ ← Prog.require (← await (.findById matchId)) (.matchNotFound matchId)
  await (.delete matchId)

/-- The loop of `addPlayers` that refuses the first player whose slot is taken. -/
def checkSlots (matchId : MatchId) (existingPlayers : List MatchPlayerEntity) :
    List PlayerDto → Api Unit
  | [] => return ()
  | p :: rest => do
      Prog.throwIf (slotTaken existingPlayers p) (.slotConflict matchId p.team p.slot)
      checkSlots matchId existingPlayers rest

/-- The end of `addPlayers`: a draft that has players starts. -/
def startPlaying (m : MatchEntity) (allPlayers : List MatchPlayerEntity) : Api MatchEntity :=
  if m.status = .draft ∧ 0 < allPlayers.length then do
    let _ ← await (.save { m with status := .playing })
    return { m with status := .playing }
  else
    return m

/-- `addPlayers(matchId, userId, dto)`. -/
def addPlayers (matchId : MatchId) (userId : UserId) (dto : AddPlayersDto) : Api MatchEntity := do
  let m ← findById matchId
  checkEditable matchId m userId "Only the match creator can add players" cannotModify
  let existingPlayers ← await (.findPlayers matchId)
  let capacity := matchCapacity m.matchType
  Prog.throwIf (capacity < existingPlayers.length + dto.players.length)
    (.capacityExceeded m.matchType capacity existingPlayers.length)
  checkSlots matchId existingPlayers dto.players
  let _ ← await (.savePlayers (dto.players.map (·.toEntity matchId)))
  let allPlayers ← await (.findPlayers matchId)
  let m ← startPlaying m allPlayers
  return { m with players := some allPlayers }

/-- `submitResult(matchId, userId, dto)`. -/
def submitResult (matchId : MatchId) (userId : UserId) (dto : SubmitResultDto) :
    Api MatchEntity := do
  let m ← findById matchId
  checkEditable matchId m userId "Only the match creator can submit the result"
    "Match is already in confirmation or confirmed"
  let players ← await (.findPlayers matchId)
  let capacity := matchCapacity m.matchType
  Prog.throwIf (players.length < capacity)
    (.insufficientPlayers m.matchType capacity players.length)
  let saved ← await (.save
    { m with
      scoreA := some dto.scoreA
      scoreB := some dto.scoreB
      status := .awaitingConfirmation })
  let occurredAt ← await .now
  await (.add .matchesQueue
    { eventType := .matchResultSubmitted
      version := 1
      occurredAt := occurredAt
      payload := .matchResultSubmitted matchId saved.matchType dto.scoreA dto.scoreB })
  return { saved with players := some players }

end MatchService

end FoosballApi.Matches
