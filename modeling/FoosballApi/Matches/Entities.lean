import Mathlib.Data.Fin.Basic
import Mathlib.Logic.Basic

/-!
# Entities and request bodies of the match library

The rows of `matches`, `match_players`, `match_confirmations` and `audit_logs`, the entities the
services hold in memory, and the validated request bodies. A body is a structure whose fields
carry what its validation decorators check, so an invalid body cannot be built.

Timestamps are milliseconds and ids are natural numbers. A `TINYINT UNSIGNED` score is a
`Fin 256`, the range both the column and the validators admit.
-/

namespace FoosballApi.Matches

abbrev MatchId := Nat
abbrev UserId := Nat
abbrev Date := Nat
abbrev Score := Fin 256

instance neZeroScore : @NeZero Nat .ofOfNat0 256 := ⟨by decide⟩

/-- `MatchType`: `'1v1' | '2v2' | '4v4'`. -/
inductive MatchType where
  | oneVsOne
  | twoVsTwo
  | fourVsFour
  deriving DecidableEq, Repr

/-- The column value of a match type. -/
def MatchType.text : MatchType → String
  | .oneVsOne => "1v1"
  | .twoVsTwo => "2v2"
  | .fourVsFour => "4v4"

/-- `MatchStatus`, all five values of the enumeration. -/
inductive MatchStatus where
  | draft
  | playing
  | awaitingConfirmation
  | confirmed
  | cancelled
  deriving DecidableEq, Repr

theorem MatchStatus.awaitingConfirmation_ne_confirmed : awaitingConfirmation ≠ confirmed := by
  decide

/-- The column value of a status. -/
def MatchStatus.text : MatchStatus → String
  | .draft => "draft"
  | .playing => "playing"
  | .awaitingConfirmation => "awaiting_confirmation"
  | .confirmed => "confirmed"
  | .cancelled => "cancelled"

/-- The status test of `update`, `addPlayers` and `submitResult`: the match is in confirmation or
confirmed. -/
def MatchStatus.Locked (status : MatchStatus) : Prop :=
  status = .awaitingConfirmation ∨ status = .confirmed

instance (status : MatchStatus) : Decidable status.Locked :=
  inferInstanceAs (Decidable (_ ∨ _))

/-- `Team`: `'A' | 'B'`. -/
inductive Team where
  | A
  | B
  deriving DecidableEq, Repr

/-- The column value of a team. -/
def Team.text : Team → String
  | .A => "A"
  | .B => "B"

/-- `MATCH_CAPACITY`. -/
def matchCapacity : MatchType → Nat
  | .oneVsOne => 2
  | .twoVsTwo => 4
  | .fourVsFour => 8

/-- A row of `matches`: the own columns of `MatchEntity`. -/
structure MatchRow where
  id : MatchId
  createdBy : Option UserId
  matchType : MatchType
  status : MatchStatus
  scoreA : Option Score
  scoreB : Option Score
  createdAt : Date
  updatedAt : Date
  confirmedAt : Option Date
  lockedAt : Option Date
  deriving DecidableEq, Repr

/-- `MatchPlayerEntity`, a row of `match_players`. -/
structure MatchPlayerEntity where
  matchId : MatchId
  userId : UserId
  team : Team
  slot : Nat
  position : Option String
  deriving DecidableEq, Repr

/-- The primary key of `match_players`. -/
def MatchPlayerEntity.key (p : MatchPlayerEntity) : MatchId × UserId := (p.matchId, p.userId)

/-- `MatchEntity` in memory: the own columns, and the `players` relation when it was loaded. -/
structure MatchEntity extends MatchRow where
  players : Option (List MatchPlayerEntity)
  deriving DecidableEq, Repr

/-- `MatchConfirmationEntity`, a row of `match_confirmations`: one player's vote. -/
structure MatchConfirmationEntity where
  matchId : MatchId
  userId : UserId
  confirmedAt : Date
  deriving DecidableEq, Repr

/-- The primary key of `match_confirmations`. -/
def MatchConfirmationEntity.key (c : MatchConfirmationEntity) : MatchId × UserId :=
  (c.matchId, c.userId)

/-- The `action` values that are written to `audit_logs`. -/
inductive AuditAction where
  | resultOverride
  | matchDelete
  deriving DecidableEq, Repr

/-- The column value of an audit action. -/
def AuditAction.text : AuditAction → String
  | .resultOverride => "result_override"
  | .matchDelete => "match_delete"

/-- The `entity_type` values that are written to `audit_logs`; always `'match'`. -/
inductive EntityType where
  | matchEntity
  deriving DecidableEq, Repr

/-- The column value of an entity type. -/
def EntityType.text : EntityType → String
  | .matchEntity => "match"

/-- The JSON objects stored as `before_data` and `after_data`: `{}`, `{scoreA, scoreB}` and
`{scoreA, scoreB, status}`. -/
inductive Snapshot where
  | empty
  | scores (scoreA scoreB : Option Score)
  | scoresAndStatus (scoreA scoreB : Option Score) (status : MatchStatus)
  deriving DecidableEq, Repr

/-- The columns of an audit row that its writer supplies. -/
structure AuditLogData where
  actorId : Option UserId
  action : AuditAction
  entityType : EntityType
  entityId : MatchId
  beforeData : Snapshot
  afterData : Snapshot
  reason : Option String
  deriving DecidableEq, Repr

/-- `AuditLogEntity`, a row of `audit_logs`. -/
structure AuditLogEntity extends AuditLogData where
  id : Nat
  createdAt : Date
  deriving DecidableEq, Repr

/-- `CursorData`: the sort key of the last row of a page. -/
structure CursorData where
  createdAt : Date
  id : MatchId
  deriving DecidableEq, Repr

/-! ## Checks on ids

The services compare ids with `===`; the id type is left open. -/

/-- `match.createdBy !== userId`. -/
def NotCreator {ι : Type} (createdBy : Option ι) (userId : ι) : Prop := createdBy ≠ some userId

instance {ι : Type} [DecidableEq ι] (createdBy : Option ι) (userId : ι) :
    Decidable (NotCreator createdBy userId) := inferInstanceAs (Decidable (¬ _))

@[simp] theorem not_notCreator {ι : Type} {createdBy : Option ι} {userId : ι} :
    ¬ NotCreator createdBy userId ↔ createdBy = some userId := not_not

/-- `players.some((p) => p.userId === userId)`. -/
def IsPlayer {ι : Type} (playerIds : List ι) (userId : ι) : Prop := userId ∈ playerIds

instance {ι : Type} [DecidableEq ι] (playerIds : List ι) (userId : ι) :
    Decidable (IsPlayer playerIds userId) := inferInstanceAs (Decidable (_ ∈ _))

/-! ## Request bodies -/

/-- `CreateMatchDto`; an absent or null `matchType` is `none`. -/
structure CreateMatchDto where
  matchType : Option MatchType

/-- `UpdateMatchDto`. A score is absent (`none`), null (`some none`) or a number: `@IsOptional`
lets null through and the service only tests for `undefined`. -/
structure UpdateMatchDto where
  scoreA : Option (Option Score)
  scoreB : Option (Option Score)

/-- `PlayerDto`. -/
structure PlayerDto where
  userId : UserId
  team : Team
  slot : Nat
  position : Option String
  userId_positive : 0 < userId
  slot_min : 1 ≤ slot
  slot_max : slot ≤ 4
  position_length : ∀ text ∈ position, text.length ≤ 64

/-- `AddPlayersDto`. -/
structure AddPlayersDto where
  players : List PlayerDto
  size_min : 1 ≤ players.length
  size_max : players.length ≤ 8

/-- `SubmitResultDto`. -/
structure SubmitResultDto where
  scoreA : Score
  scoreB : Score

/-- `AdminOverrideResultDto`; an absent or null `reason` is `none`. -/
structure AdminOverrideResultDto where
  scoreA : Score
  scoreB : Score
  reason : Option String
  reason_length : ∀ text ∈ reason, text.length ≤ 1000

theorem no_reason_length : ∀ text ∈ (none : Option String), text.length ≤ 1000 :=
  fun text htext => absurd htext (Option.not_mem_none text)

/-- The row `addPlayers` writes for one entry of the request. -/
def PlayerDto.toEntity (matchId : MatchId) (p : PlayerDto) : MatchPlayerEntity :=
  ⟨matchId, p.userId, p.team, p.slot, p.position⟩

@[simp] theorem PlayerDto.toEntity_matchId (matchId : MatchId) (p : PlayerDto) :
    (p.toEntity matchId).matchId = matchId := rfl

@[simp] theorem PlayerDto.toEntity_userId (matchId : MatchId) (p : PlayerDto) :
    (p.toEntity matchId).userId = p.userId := rfl

@[simp] theorem PlayerDto.toEntity_team (matchId : MatchId) (p : PlayerDto) :
    (p.toEntity matchId).team = p.team := rfl

@[simp] theorem PlayerDto.toEntity_slot (matchId : MatchId) (p : PlayerDto) :
    (p.toEntity matchId).slot = p.slot := rfl

/-- The rows `addPlayers` writes are rows of its match. -/
theorem AddPlayersDto.matchId_rows (dto : AddPlayersDto) (matchId : MatchId) :
    ∀ p ∈ dto.players.map (·.toEntity matchId), p.matchId = matchId := by
  intro p hp
  obtain ⟨q, _, rfl⟩ := List.mem_map.mp hp
  rfl

/-- `addPlayers` writes a row, as its request names a player. -/
theorem AddPlayersDto.rows_ne_nil (dto : AddPlayersDto) (matchId : MatchId) :
    dto.players.map (·.toEntity matchId) ≠ [] := by
  rw [Ne, List.map_eq_nil_iff, ← List.length_eq_zero_iff]
  exact Nat.ne_of_gt dto.size_min

end FoosballApi.Matches
