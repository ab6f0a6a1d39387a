import Mathlib.Data.Prod.Lex
import FoosballApi.Data.Keyset
import FoosballApi.Matches.Repository

/-!
# Listing matches page by page

`MatchRepository.findPaginated` and `MatchService.list`. The cursor is the sort key of the last row
of a page as base64 of a JSON text; `CursorCodec` is that text, of which the listing uses only that
decoding undoes encoding. `textCodec` of `CursorZone.lean` is one.
-/

namespace FoosballApi.Matches

open Calls

/-- The text of a cursor. -/
structure CursorCodec where
  encode : CursorData → String
  decode : String → Except Failure CursorData
  encode_ne : ∀ data, encode data ≠ ""
  decode_encode : ∀ data, decode (encode data) = .ok data

/-- The parameters of `findPaginated`. -/
structure ListParams where
  status : Option MatchStatus
  matchType : Option MatchType
  createdBy : Option UserId
  cursor : Option String
  limit : Nat

/-- `PaginatedMatches`. -/
structure PaginatedMatches where
  data : List MatchEntity
  limit : Nat
  hasMore : Bool
  nextCursor : Option String
  deriving DecidableEq

/-- `ListMatchesDto`. -/
structure ListMatchesDto where
  status : Option MatchStatus
  matchType : Option MatchType
  createdBy : Option UserId
  cursor : Option String
  limit : Option Nat
  createdBy_positive : ∀ userId ∈ createdBy, 0 < userId
  limit_min : ∀ n ∈ limit, 1 ≤ n
  limit_max : ∀ n ∈ limit, n ≤ 100

namespace MatchRepository

/-- The sort key a cursor stands for; an empty text is no cursor. -/
def decodeCursor (codec : CursorCodec) (cursor : Option String) : Api (Option CursorData) :=
  match cursor.filter (· ≠ "") with
  | none => return none
  | some text => do return some (← Prog.resume (codec.decode text))

/-- `findPaginated(params)`. One row more than the limit is read; an id of zero is no filter. -/
def findPaginated (codec : CursorCodec) (params : ListParams) : Api PaginatedMatches := do
  let cursor ← decodeCursor codec params.cursor
  let rows ← await (.getMany
    { status := params.status
      matchType := params.matchType
      createdBy := params.createdBy.filter (0 < ·)
      cursor := cursor
      take := params.limit + 1 })
  let hasMore : Bool := params.limit < rows.length
  let data := if hasMore then rows.take params.limit else rows
  let nextCursor :=
    if hasMore then data.getLast?.map fun last => codec.encode ⟨last.createdAt, last.id⟩ else none
  return ⟨data, params.limit, hasMore, nextCursor⟩

end MatchRepository

/-- `list(dto)`. -/
def MatchService.list (codec : CursorCodec) (dto : ListMatchesDto) : Api PaginatedMatches :=
  MatchRepository.findPaginated codec
    { status := dto.status
      matchType := dto.matchType
      createdBy := dto.createdBy
      cursor := dto.cursor
      limit := dto.limit.getD 20 }

/-! ## A page as a keyset page -/

/-- The sort key of a listed row: later rows first, and the larger id first among rows of one
time. -/
def listKey (m : MatchEntity) : (Date ×ₗ MatchId)ᵒᵈ := .toDual (toLex (m.createdAt, m.id))

/-- The key that a cursor stands for. -/
def CursorData.key (cursor : CursorData) : (Date ×ₗ MatchId)ᵒᵈ :=
  .toDual (toLex (cursor.createdAt, cursor.id))

theorem listKey_lt {m n : MatchEntity} :
    listKey m < listKey n ↔
      n.createdAt < m.createdAt ∨ n.createdAt = m.createdAt ∧ n.id < m.id := by
  rw [listKey, listKey, OrderDual.toDual_lt_toDual, Prod.Lex.toLex_lt_toLex]

theorem cursor_lt {cursor : CursorData} {m : MatchEntity} :
    cursor.key < listKey m ↔
      m.createdAt < cursor.createdAt ∨ m.createdAt = cursor.createdAt ∧ m.id < cursor.id := by
  rw [CursorData.key, listKey, OrderDual.toDual_lt_toDual, Prod.Lex.toLex_lt_toLex]

/-- The order of the query is the order of the keys. -/
theorem listKey_le {r s : MatchRow} :
    listKey ⟨r, none⟩ ≤ listKey ⟨s, none⟩ ↔ listedBefore r s := by
  rw [listKey, listKey, OrderDual.toDual_le_toDual, Prod.Lex.toLex_le_toLex]
  exact Iff.rfl

/-- A row satisfies the filters of a request, whatever its cursor. -/
def ListParams.Admits (params : ListParams) (r : MatchRow) : Prop :=
  (∀ status ∈ params.status, r.status = status) ∧
    (∀ matchType ∈ params.matchType, r.matchType = matchType) ∧
    ∀ createdBy ∈ params.createdBy, 0 < createdBy → r.createdBy = some createdBy

instance (params : ListParams) (r : MatchRow) : Decidable (params.Admits r) :=
  inferInstanceAs (Decidable (_ ∧ _ ∧ _))

/-- The stored rows that satisfy the filters of a request. -/
def World.listed (w : World) (params : ListParams) : List MatchEntity :=
  (w.matchRows.sel (params.Admits ·)).map fun r => ⟨r, none⟩

theorem mem_listed {w : World} {params : ListParams} {m : MatchEntity} :
    m ∈ w.listed params ↔ m.players = none ∧ w.row m.id = some m.toMatchRow ∧
      params.Admits m.toMatchRow := by
  obtain ⟨r, players⟩ := m
  simp only [World.listed, List.mem_map, Data.Table.mem_sel, decide_eq_true_eq, World.row,
    Data.Table.get_eq_some, MatchEntity.mk.injEq]
  constructor
  · rintro ⟨r, ⟨hr, hadmits⟩, rfl, rfl⟩
    exact ⟨rfl, ⟨hr, trivial⟩, hadmits⟩
  · rintro ⟨rfl, ⟨hr, -⟩, hadmits⟩
    exact ⟨r, ⟨hr, hadmits⟩, rfl, rfl⟩

/-- Rows of one table have different keys. -/
theorem listed_keys_nodup (w : World) (params : ListParams) :
    ((w.listed params).map listKey).Nodup := by
  have hids : ((w.matchRows.sel (params.Admits ·)).map (·.id)).Nodup :=
    w.matchRows.sel_keys_nodup _
  have hkeys : ((w.listed params).map listKey).map (fun k => (ofLex k.ofDual).2) =
      (w.matchRows.sel (params.Admits ·)).map (·.id) := by
    rw [World.listed, List.map_map, List.map_map]
    exact List.map_congr_left fun _ _ => rfl
  exact .of_map _ (hkeys ▸ hids)

/-- Sorting rows for the query sorts the entities by their keys. -/
theorem map_sort (rows : List MatchRow) :
    (rows.map fun r => (⟨r, none⟩ : MatchEntity)).insertionSort (listKey · ≤ listKey ·) =
      (rows.insertionSort listedBefore).map fun r => ⟨r, none⟩ :=
  (List.map_insertionSort listedBefore (fun m n : MatchEntity => listKey m ≤ listKey n) _ rows
    fun _ _ _ _ => listKey_le.symm).symm

/-- The rows of a page, from one row more than the limit. -/
theorem take_data (rows : List MatchEntity) (limit : Nat) :
    (if decide (limit < rows.length) = true then rows.take limit else rows) = rows.take limit := by
  split
  · rfl
  · next hlast => exact (List.take_of_length_le (by simpa using hlast)).symm

/-- The first rows of the query are the first rows after the cursor, by their keys. -/
theorem getMany_eq (w : World) (params : ListParams) (cursor : Option CursorData) (take : Nat) :
    w.getMany ⟨params.status, params.matchType, params.createdBy.filter (0 < ·), cursor, take⟩ =
      (Data.Keyset.sortedAfter listKey (w.listed params) (cursor.map (·.key))).take take := by
  rw [World.getMany, Data.Keyset.sortedAfter, World.listed, List.filter_map, map_sort,
    List.map_take]
  congr 3
  rw [Data.Table.sel, Data.Table.sel, List.filter_filter]
  refine List.filter_congr fun r _ => ?_
  rw [Bool.eq_iff_iff]
  simp only [MatchQuery.Admits, ListParams.Admits, Data.Keyset.After, Function.comp_apply,
    Option.mem_def, Option.filter_eq_some_iff, Option.map_eq_some_iff, forall_exists_index, and_imp,
    forall_apply_eq_imp_iff₂, cursor_lt, decide_eq_true_eq, Bool.and_eq_true]
  tauto

/-- The sort key of the last row of a page that is not the last. -/
def lastRow (p : Data.Keyset.Page MatchEntity) : Option CursorData :=
  if p.hasMore then p.data.getLast?.map fun last => ⟨last.createdAt, last.id⟩ else none

/-- The answer for a page. -/
def paginated (codec : CursorCodec) (limit : Nat) (p : Data.Keyset.Page MatchEntity) :
    PaginatedMatches :=
  ⟨p.data, limit, p.hasMore, (lastRow p).map codec.encode⟩

theorem next_eq (p : Data.Keyset.Page MatchEntity) :
    p.next listKey = (lastRow p).map (·.key) := by
  unfold Data.Keyset.Page.next lastRow
  split
  · rw [Option.map_map]
    rfl
  · rfl

/-- The text of a cursor stands for its key. -/
theorem decodeCursor_encode (codec : CursorCodec) (cursor : Option CursorData) :
    MatchRepository.decodeCursor codec (cursor.map codec.encode) = .pure cursor := by
  unfold MatchRepository.decodeCursor
  cases cursor with
  | none => rfl
  | some data =>
      have htext : (some (codec.encode data)).filter (· ≠ "") = some (codec.encode data) :=
        Option.filter_some_pos (by simpa using codec.encode_ne data)
      rw [Option.map_some, htext]
      dsimp only
      rw [codec.decode_encode]
      rfl

/-- `findPaginated` answers with the page after its cursor. -/
theorem findPaginated_after {codec : CursorCodec} {params : ListParams} {cursor : Option CursorData}
    (hdecode : MatchRepository.decodeCursor codec params.cursor = .pure cursor)
    {calls : List Call} {s : Session} {w : World} :
    (MatchRepository.findPaginated codec params).after system Prog.noFaults calls s w fun out =>
      out.world = w ∧ out.result = .ok (paginated codec params.limit
        (Data.Keyset.page listKey params.limit (w.listed params) (cursor.map (·.key)))) := by
  unfold MatchRepository.findPaginated
  rw [hdecode, Prog.pure_bind_eq]
  simp only [Prog.after_bind, Prog.after_perform, System.perform_false, Prog.noFaults]
  have hrows := getMany_eq w params cursor (params.limit + 1)
  simp only [system, exec, Prog.pure_eq, Prog.after_pure, hrows, true_and]
  generalize hfound : (Data.Keyset.sortedAfter listKey (w.listed params)
    (cursor.map (·.key))).take (params.limit + 1) = found
  rw [take_data, paginated, Data.Keyset.page, hfound, lastRow]
  congr 2
  split
  · rw [Option.map_map]
    rfl
  · rfl

end FoosballApi.Matches
