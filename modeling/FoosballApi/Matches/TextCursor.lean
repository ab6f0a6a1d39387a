import FoosballApi.Http.ErrorFilters
import FoosballApi.Matches.Listing
import FoosballApi.Text.Base64
import FoosballApi.Text.IsoTime
import FoosballApi.Text.Json

/-!
# The text of a cursor

`findPaginated` with the text of its cursor. `Listing.lean` takes the text for a codec that decoding
inverts; here it is the base64 of a JSON text, which the process writes of a row and reads of
whatever a client sends.

A `DATETIME` column holds a wall clock, counted here in milliseconds since 1970 by that clock. The
driver takes it for the local time of the process, and `toISOString` writes the instant in UTC. How
the server reads a text that it compares with the column is a parameter, and so is its answer to a
statement whose parameters are not a date and an integer.
-/

namespace FoosballApi.Matches.TextCursor

open Calls Text

/-- The columns that a listing is sorted by, as stored. -/
structure SortColumns where
  createdAt : Int
  id : Nat
  deriving DecidableEq, Repr

/-- The bound of a page, as the server compares with it. -/
structure Bound where
  createdAt : Int
  id : Int
  deriving DecidableEq, Repr

/-- The bound that the columns themselves make. -/
def SortColumns.bound (r : SortColumns) : Bound := ⟨r.createdAt, r.id⟩

/-- `created_at < :cursorAt OR (created_at = :cursorAt AND id < :cursorId)`. -/
def SortColumns.Below (x : SortColumns) (bound : Bound) : Prop :=
  x.createdAt < bound.createdAt ∨ x.createdAt = bound.createdAt ∧ x.id < bound.id

instance (x : SortColumns) (bound : Bound) : Decidable (x.Below bound) :=
  inferInstanceAs (Decidable (_ ∨ _))

/-- The sort columns of a stored match. -/
def sortColumns (r : MatchRow) : SortColumns := ⟨r.createdAt, r.id⟩

/-! ## Encoding and decoding -/

/-- The clock that `createdAt.toISOString()` spells in a process with a UTC offset: the one of the
instant at which the process' own clock shows the column. -/
def utcClock (offset : Int) (r : SortColumns) : DateTime := .ofMs (r.createdAt - offset)

/-- `Buffer.from(JSON.stringify({ createdAt, id })).toString('base64')`. A `BIGINT` column reads
back as a string, so the id is one in the JSON text too. -/
def encodeCursor (offset : Int) (r : SortColumns) : String :=
  textToBase64 (Json.stringify
    [("createdAt", (utcClock offset r).toISOString), ("id", .ofList (Nat.toDigits 10 r.id))])

/-- `:cursorAt` and `:cursorId`; a field that the cursor has not is `undefined`. -/
structure CursorParams where
  cursorAt : Option Json
  cursorId : Option Json

/-- The parameters of a cursor. `JSON.parse` can throw a `SyntaxError`, and to read a field of
`null` is a `TypeError`; any other value has fields or has none. -/
def decodeCursor (cursor : String) : Except (Http.Thrown Unit) CursorParams :=
  match Json.parse (textOfBase64 cursor) with
  | none | some .null => .error .other
  | some cursorData => .ok ⟨cursorData.field? "createdAt", cursorData.field? "id"⟩

/-- The integer that a value is, or spells. -/
def integer? : Json → Option Int
  | .number negative mantissa exponent => Json.integer? negative mantissa exponent
  | .string digits => signedDecimal? digits.toList
  | _ => none

/-- The bound that parameters stand for, when they are a date string and an integer; `literal` is
how the server reads a text as a wall clock. -/
def CursorParams.bound? (literal : String → Option Int) : CursorParams → Option Bound
  | ⟨some (.string cursorAt), some cursorId⟩ => do
      return ⟨← literal cursorAt, ← integer? cursorId⟩
  | _ => none

/-! ## The listing -/

/-- The statement of `findPaginated`. -/
structure ListStatement where
  status : Option MatchStatus
  matchType : Option MatchType
  createdBy : Option UserId
  cursor : Option CursorParams
  take : Nat

/-- The conditions of a statement that do not depend on the cursor. -/
def ListStatement.query (statement : ListStatement) : MatchQuery :=
  ⟨statement.status, statement.matchType, statement.createdBy, none, statement.take⟩

/-- How the server reads texts as wall clocks, and what it answers to a statement whose parameters
are not a date and an integer: rows, or an error. -/
structure Server where
  literal : String → Option Int
  irregular : World → ListStatement → Option (List MatchEntity)

/-- The rows of a query below a bound. -/
def getManyBelow (w : World) (query : MatchQuery) (bound : Bound) : List MatchEntity :=
  (((w.matchRows.sel fun r => decide (query.Admits r ∧ (sortColumns r).Below bound)).insertionSort
    listedBefore).take query.take).map fun r => ⟨r, none⟩

/-- The rows that a statement selects. -/
def Server.select (server : Server) (w : World) (statement : ListStatement) :
    Option (List MatchEntity) :=
  match statement.cursor with
  | none => some (w.getMany statement.query)
  | some cursor =>
      match cursor.bound? server.literal with
      | some bound => some (getManyBelow w statement.query bound)
      | none => server.irregular w statement

/-- A program that runs such statements. -/
abbrev Listing := Prog ListStatement (fun _ => List MatchEntity) (Http.Thrown Unit)

/-- The parameters of a request's cursor; an empty text is no cursor. -/
def cursorParams (cursor : Option String) : Except (Http.Thrown Unit) (Option CursorParams) :=
  match cursor.filter (· ≠ "") with
  | none => .ok none
  | some text => (decodeCursor text).map some

/-- The page of rows of which one more than the limit was read. -/
def paginate (offset : Int) (limit : Nat) (rows : List MatchEntity) : PaginatedMatches :=
  let hasMore : Bool := limit < rows.length
  let data := if hasMore then rows.take limit else rows
  let nextCursor :=
    if hasMore then data.getLast?.map fun last => encodeCursor offset (sortColumns last.toMatchRow)
    else none
  ⟨data, limit, hasMore, nextCursor⟩

/-- The statement of a request. -/
def listStatement (params : ListParams) (cursor : Option CursorParams) : ListStatement :=
  { status := params.status
    matchType := params.matchType
    createdBy := params.createdBy.filter (0 < ·)
    cursor := cursor
    take := params.limit + 1 }

/-- `findPaginated(params)`. -/
def MatchRepository.findPaginated (offset : Int) (params : ListParams) :
    Listing PaginatedMatches := do
  let cursor ← Prog.resume (cursorParams params.cursor)
  let rows ← Prog.perform (listStatement params cursor)
  return paginate offset params.limit rows

/-- The parameters of a request. -/
def listParams (dto : ListMatchesDto) : ListParams :=
  { status := dto.status
    matchType := dto.matchType
    createdBy := dto.createdBy
    cursor := dto.cursor
    limit := dto.limit.getD 20 }

/-- `listMatches(query)`, which is `list(query)`. -/
def MatchesController.listMatches (offset : Int) (dto : ListMatchesDto) :
    Listing PaginatedMatches :=
  MatchRepository.findPaginated offset (listParams dto)

/-- The server runs statements one by one; a statement that it rejects is a `QueryFailedError`. -/
def system (server : Server) :
    System ListStatement (fun _ => List MatchEntity) (Http.Thrown Unit) Unit World where
  exec statement session w :=
    ((server.select w statement).elim (.error .other) .ok, session, w)
  fault _ := some .other
  held _ := false
  waits _ := false
  enter _ _ _ h := .inl h

/-- What a client receives. -/
inductive Reply where
  | page (body : PaginatedMatches)
  | error (reply : Http.ErrorReply Unit)
  deriving DecidableEq

/-- The page, or what the filter makes of an exception. -/
def Reply.of : Except (Http.Thrown Unit) PaginatedMatches → Reply
  | .ok body => .page body
  | .error thrown => .error (Http.AllExceptionsFilter.catch thrown)

/-- The statements of a request, and its reply. -/
structure Served where
  statements : List ListStatement
  reply : Reply

/-- `GET /matches`. -/
def serve (server : Server) (offset : Int) (w : World) (dto : ListMatchesDto) : Served :=
  let out := (MatchesController.listMatches offset dto).eval (system server) Prog.noFaults [] () w
  ⟨out.calls, .of out.result⟩

/-! ## A cursor of the listing itself -/

variable {server : Server} {offset : Int} {w : World} {dto : ListMatchesDto} {r : SortColumns}

/-- The parameters of the cursor that a row is written as. -/
theorem decodeCursor_encodeCursor (offset : Int) (r : SortColumns) :
    decodeCursor (encodeCursor offset r) =
      .ok ⟨some (.string (utcClock offset r).toISOString),
        some (.string (.ofList (Nat.toDigits 10 r.id)))⟩ := by
  rw [decodeCursor, encodeCursor, textOfBase64_textToBase64, Json.parse_stringify]
  rfl

/-- An empty text is no JSON text. -/
theorem decodeCursor_empty : decodeCursor "" = .error .other := rfl

theorem encodeCursor_ne (offset : Int) (r : SortColumns) : encodeCursor offset r ≠ "" := by
  intro h
  have hdecode := decodeCursor_encodeCursor offset r
  rw [h, decodeCursor_empty] at hdecode
  cases hdecode

/-- The bound that the server reads of the cursor of a row: its wall clock is off by the offset. -/
def utcBound (offset : Int) (r : SortColumns) : Bound := ⟨r.createdAt - offset, r.id⟩

/-- The server takes the text of a row's cursor for the wall clock that it spells. -/
def ReadsClock (literal : String → Option Int) (offset : Int) (r : SortColumns) : Prop :=
  literal (utcClock offset r).toISOString = some (utcClock offset r).ms

theorem bound?_encodeCursor {literal : String → Option Int}
    (hliteral : ReadsClock literal offset r) :
    ∃ cursor, decodeCursor (encodeCursor offset r) = .ok cursor ∧
      cursor.bound? literal = some (utcBound offset r) := by
  refine ⟨_, decodeCursor_encodeCursor offset r, ?_⟩
  have hclock : (utcClock offset r).ms = r.createdAt - offset := DateTime.ms_ofMs _
  have hid : integer? (.string (.ofList (Nat.toDigits 10 r.id))) = some (r.id : Int) := by
    rw [integer?, String.toList_ofList, signedDecimal?_toDigits]
  rw [ReadsClock, hclock] at hliteral
  simp only [CursorParams.bound?, hliteral, hid]
  rfl

/-! ## Serving a request -/

/-- The answer for a page. -/
def paginated (offset : Int) (limit : Nat) (p : Data.Keyset.Page MatchEntity) : PaginatedMatches :=
  ⟨p.data, limit, p.hasMore,
    (lastRow p).map fun last => encodeCursor offset ⟨last.createdAt, last.id⟩⟩

/-- The first page of the rows below a bound. -/
def pageBelow (w : World) (params : ListParams) (bound : Bound) : Data.Keyset.Page MatchEntity :=
  Data.Keyset.page listKey params.limit
    ((w.listed params).filter fun m => (sortColumns m.toMatchRow).Below bound) none

/-- The rows below a bound are the first of those listed below it. -/
theorem getManyBelow_eq (w : World) (params : ListParams) (cursor : Option CursorParams)
    (bound : Bound) :
    getManyBelow w (listStatement params cursor).query bound =
      (Data.Keyset.sortedAfter listKey ((w.listed params).filter fun m =>
        (sortColumns m.toMatchRow).Below bound) none).take (params.limit + 1) := by
  rw [getManyBelow, Data.Keyset.sortedAfter, World.listed, List.filter_map, List.filter_map,
    map_sort, List.map_take]
  congr 3
  rw [Data.Table.sel, Data.Table.sel, List.filter_filter, List.filter_filter]
  refine List.filter_congr fun r _ => ?_
  rw [Bool.eq_iff_iff]
  simp only [listStatement, ListStatement.query, MatchQuery.Admits, ListParams.Admits,
    Data.Keyset.After, Function.comp_apply, Option.mem_def, Option.filter_eq_some_iff,
    reduceCtorEq, false_implies, implies_true, decide_eq_true_eq, Bool.and_eq_true, and_imp]
  tauto

/-- Rows of which one more than the limit was read make up a page. -/
theorem paginate_take (offset : Int) (limit : Nat) (rows : List MatchEntity)
    (bound : Option (Date ×ₗ MatchId)ᵒᵈ) :
    paginate offset limit ((Data.Keyset.sortedAfter listKey rows bound).take (limit + 1)) =
      paginated offset limit (Data.Keyset.page listKey limit rows bound) := by
  unfold paginate paginated Data.Keyset.page lastRow
  dsimp only
  generalize (Data.Keyset.sortedAfter listKey rows bound).take (limit + 1) = found
  rw [take_data]
  congr 1
  split
  · rw [Option.map_map]
    rfl
  · rfl

/-- The rows below a bound make up the page below it. -/
theorem paginate_getManyBelow (offset : Int) (w : World) (params : ListParams)
    (cursor : Option CursorParams) (bound : Bound) :
    paginate offset params.limit (getManyBelow w (listStatement params cursor).query bound) =
      paginated offset params.limit (pageBelow w params bound) := by
  rw [getManyBelow_eq]
  exact paginate_take offset params.limit _ none

/-- A cursor that cannot be decoded ends the request before any statement. -/
theorem serve_of_error {thrown : Http.Thrown Unit} (h : cursorParams dto.cursor = .error thrown) :
    serve server offset w dto = ⟨[], .error (Http.AllExceptionsFilter.catch thrown)⟩ := by
  unfold serve MatchesController.listMatches MatchRepository.findPaginated
  rw [show (listParams dto).cursor = dto.cursor from rfl, h]
  rfl

/-- A request with no cursor, or with one that can be decoded, runs one statement. -/
theorem serve_of_ok {cursor : Option CursorParams} (h : cursorParams dto.cursor = .ok cursor) :
    serve server offset w dto =
      ⟨[listStatement (listParams dto) cursor],
        match server.select w (listStatement (listParams dto) cursor) with
        | some rows => .page (paginate offset (listParams dto).limit rows)
        | none => .error (Http.AllExceptionsFilter.catch .other)⟩ := by
  have hprogram : MatchesController.listMatches offset dto =
      Prog.perform (listStatement (listParams dto) cursor) >>= fun rows =>
        .pure (paginate offset (listParams dto).limit rows) := by
    unfold MatchesController.listMatches MatchRepository.findPaginated
    rw [show (listParams dto).cursor = dto.cursor from rfl, h]
    rfl
  rw [serve, hprogram]
  cases hselect : server.select w (listStatement (listParams dto) cursor) with
  | none =>
      simp only [Prog.perform, Prog.call_bind_eq, Prog.eval, System.perform_false, Prog.noFaults,
        system, hselect]
      rfl
  | some rows =>
      simp only [Prog.perform, Prog.call_bind_eq, Prog.eval, System.perform_false, Prog.noFaults,
        system, hselect]
      rfl

/-- A text that is not empty is decoded. -/
theorem cursorParams_text {text : String} (hne : text ≠ "") :
    cursorParams (some text) = (decodeCursor text).map some := by
  have htext : (some text).filter (· ≠ "") = some text :=
    Option.filter_some_pos (by simpa using hne)
  rw [cursorParams, htext]

/-- A cursor with a bound is answered with the page below it. -/
theorem serve_of_bound {text : String} (htext : dto.cursor = some text) (hne : text ≠ "")
    {cursor : CursorParams} {bound : Bound} (hdecode : decodeCursor text = .ok cursor)
    (hbound : cursor.bound? server.literal = some bound) :
    serve server offset w dto =
      ⟨[listStatement (listParams dto) (some cursor)],
        .page (paginated offset (listParams dto).limit (pageBelow w (listParams dto) bound))⟩ := by
  have hparams : cursorParams dto.cursor = .ok (some cursor) := by
    rw [htext, cursorParams_text hne, hdecode]
    rfl
  have hselect : server.select w (listStatement (listParams dto) (some cursor)) =
      some (getManyBelow w (listStatement (listParams dto) (some cursor)).query bound) := by
    show (match cursor.bound? server.literal with | some bound => _ | none => _) = _
    rw [hbound]
  rw [serve_of_ok hparams, hselect]
  dsimp only
  rw [paginate_getManyBelow]

/-- A request without a cursor is answered with the first page. -/
theorem serve_of_none (hcursor : cursorParams dto.cursor = .ok none) :
    serve server offset w dto =
      ⟨[listStatement (listParams dto) none],
        .page (paginated offset (listParams dto).limit (Data.Keyset.page listKey
          (listParams dto).limit (w.listed (listParams dto)) none))⟩ := by
  have hrows : w.getMany (listStatement (listParams dto) none).query =
      (Data.Keyset.sortedAfter listKey (w.listed (listParams dto)) none).take
        ((listParams dto).limit + 1) := getMany_eq w (listParams dto) none _
  have hselect : server.select w (listStatement (listParams dto) none) =
      some (w.getMany (listStatement (listParams dto) none).query) := rfl
  rw [serve_of_ok hcursor, hselect]
  dsimp only
  rw [hrows, paginate_take]

end FoosballApi.Matches.TextCursor
