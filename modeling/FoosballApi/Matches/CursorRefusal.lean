import FoosballApi.Matches.TextCursor

/-!
# What a client may send as a cursor

The request validates that the cursor is a text and nothing more. A text that is not the base64 of a
JSON text, or of `null`, ends in an exception that is no `HttpException`, and so in a 500; a value
without the two fields runs the statement with `undefined` parameters, and an empty text without a
bound. A request is served from a bound exactly when the text spells one, and none is refused as a
client error.
-/

namespace FoosballApi.Matches.TextCursor

open Calls Text

variable {server : Server} {offset : Int} {w : World} {dto : ListMatchesDto} {text : String}

/-- The client receives the page below a bound of a date string and an integer, or an error of its
own; no error is a 500, and no statement lacks a parameter. -/
def ServedOrRefused (server : Server) (offset : Int) (w : World) (dto : ListMatchesDto) : Prop :=
  let served := serve server offset w dto
  ((∃ cursor bound, served.statements = [listStatement (listParams dto) (some cursor)] ∧
      cursor.bound? server.literal = some bound ∧
      served.reply =
        .page (paginated offset (listParams dto).limit (pageBelow w (listParams dto) bound))) ∨
    ∃ reply, served.reply = .error reply ∧ 400 ≤ reply.status ∧ reply.status < 500) ∧
  (∀ reply, served.reply = .error reply → reply.status ≠ 500) ∧
  ∀ statement ∈ served.statements, ∃ cursorAt cursorId,
    statement.cursor = some ⟨some cursorAt, some cursorId⟩

/-- A text is the base64 of a JSON object with a date string and an integer. -/
def SpellsBound (literal : String → Option Int) (text : String) : Prop :=
  ∃ members cursorAt cursorId, Json.parse (textOfBase64 text) = some (.object members) ∧
    Json.member? members "createdAt" = some (.string cursorAt) ∧ (literal cursorAt).isSome ∧
    Json.member? members "id" = some cursorId ∧ (integer? cursorId).isSome

/-- Parameters with a bound are a date string and an integer. -/
theorem bound?_eq_some {literal : String → Option Int} {cursor : CursorParams} {bound : Bound} :
    cursor.bound? literal = some bound ↔ ∃ cursorAt cursorId,
      cursor = ⟨some (.string cursorAt), some cursorId⟩ ∧
        literal cursorAt = some bound.createdAt ∧ integer? cursorId = some bound.id := by
  constructor
  · intro h
    unfold CursorParams.bound? at h
    split at h
    · next cursorAt cursorId =>
        simp only [Option.pure_def, Option.bind_eq_bind, Option.bind_eq_some_iff,
          Option.some.injEq] at h
        obtain ⟨time, htime, id, hid, rfl⟩ := h
        exact ⟨cursorAt, cursorId, rfl, htime, hid⟩
    · cases h
  · rintro ⟨cursorAt, cursorId, rfl, htime, hid⟩
    simp only [CursorParams.bound?, htime, hid]
    rfl

/-- A text spells a bound when it is decoded to parameters that have one. -/
theorem spellsBound_iff {literal : String → Option Int} :
    SpellsBound literal text ↔
      ∃ cursor bound, decodeCursor text = .ok cursor ∧ cursor.bound? literal = some bound := by
  constructor
  · rintro ⟨members, cursorAt, cursorId, hparse, hat, htime, hid, hinteger⟩
    obtain ⟨time, htime⟩ := Option.isSome_iff_exists.mp htime
    obtain ⟨id, hinteger⟩ := Option.isSome_iff_exists.mp hinteger
    have hdecode : decodeCursor text = .ok ⟨Json.member? members "createdAt",
        Json.member? members "id"⟩ := by
      rw [decodeCursor, hparse]
      rfl
    rw [hat, hid] at hdecode
    exact ⟨_, ⟨time, id⟩, hdecode, bound?_eq_some.mpr ⟨cursorAt, cursorId, rfl, htime, hinteger⟩⟩
  · rintro ⟨cursor, bound, hdecode, hbound⟩
    obtain ⟨cursorAt, cursorId, rfl, htime, hinteger⟩ := bound?_eq_some.mp hbound
    unfold decodeCursor at hdecode
    split at hdecode
    · cases hdecode
    · cases hdecode
    · next cursorData hnull hparse =>
        simp only [Except.ok.injEq, CursorParams.mk.injEq] at hdecode
        obtain ⟨hat, hid⟩ := hdecode
        -- Only an object has fields.
        cases cursorData with
        | object members =>
            exact ⟨members, cursorAt, cursorId, hparse, hat, htime ▸ rfl, hid, hinteger ▸ rfl⟩
        | null => cases hat
        | bool value => cases hat
        | number negative mantissa exponent => cases hat
        | string value => cases hat
        | array items => cases hat

/-- The listing's own cursors spell bounds. -/
theorem spellsBound_encodeCursor {literal : String → Option Int} {r : SortColumns}
    (hliteral : ReadsClock literal offset r) : SpellsBound literal (encodeCursor offset r) := by
  obtain ⟨cursor, hdecode, hbound⟩ := bound?_encodeCursor hliteral
  exact spellsBound_iff.mpr ⟨cursor, utcBound offset r, hdecode, hbound⟩

/-- What the decoder throws is no `HttpException`. -/
theorem cursorParams_error {cursor : Option String} {thrown : Http.Thrown Unit}
    (h : cursorParams cursor = .error thrown) : thrown = .other := by
  have hdecode : ∀ text, decodeCursor text = .error thrown → thrown = .other := by
    intro text h
    unfold decodeCursor at h
    split at h
    · exact (Except.error.inj h).symm
    · exact (Except.error.inj h).symm
    · cases h
  unfold cursorParams at h
  split at h
  · cases h
  · next text _ =>
      cases htext : decodeCursor text with
      | error thrown' =>
          rw [htext] at h
          obtain rfl : thrown' = thrown := Except.error.inj h
          exact hdecode text htext
      | ok cursor =>
          rw [htext] at h
          cases h

/-- The parameters of a request come from its text, which is not empty. -/
theorem cursorParams_some {cursor : CursorParams}
    (h : cursorParams (some text) = .ok (some cursor)) :
    text ≠ "" ∧ decodeCursor text = .ok cursor := by
  by_cases hne : text = ""
  · subst hne
    cases h
  · refine ⟨hne, ?_⟩
    rw [cursorParams_text hne] at h
    cases hdecode : decodeCursor text with
    | error thrown =>
        rw [hdecode] at h
        cases h
    | ok cursor' =>
        rw [hdecode] at h
        cases h
        rfl

/-- Every error that the client receives is a 500. -/
theorem status_of_error {reply : Http.ErrorReply Unit}
    (h : (serve server offset w dto).reply = .error reply) : reply.status = 500 := by
  cases hparams : cursorParams dto.cursor with
  | error thrown =>
      obtain rfl := cursorParams_error hparams
      rw [serve_of_error hparams] at h
      cases h
      rfl
  | ok cursor =>
      rw [serve_of_ok hparams] at h
      dsimp only at h
      split at h
      · cases h
      · cases h
        rfl

/-- A statement with parameters has those of the decoded text. -/
theorem decodeCursor_of_statement {cursor : CursorParams} (htext : dto.cursor = some text)
    (h : (serve server offset w dto).statements = [listStatement (listParams dto) (some cursor)]) :
    decodeCursor text = .ok cursor := by
  cases hparams : cursorParams dto.cursor with
  | error thrown =>
      rw [serve_of_error hparams] at h
      cases h
  | ok cursor' =>
      rw [serve_of_ok hparams] at h
      obtain rfl : cursor' = some cursor :=
        congrArg ListStatement.cursor (List.singleton_inj.mp h)
      rw [htext] at hparams
      exact (cursorParams_some hparams).2

example : decodeCursor "e30=" = .ok ⟨none, none⟩ := rfl

/-- A request is served from a bound, or refused as a client error, exactly when its cursor spells a
bound. -/
theorem servedOrRefused_iff (server : Server) (offset : Int) (w : World) (dto : ListMatchesDto)
    (text : String) :
    ServedOrRefused server offset w { dto with cursor := some text } ↔
      SpellsBound server.literal text := by
  rw [spellsBound_iff]
  constructor
  · rintro ⟨⟨cursor, bound, hstatements, hbound, -⟩ | ⟨reply, hreply, -, hstatus⟩, -⟩
    · exact ⟨cursor, bound, decodeCursor_of_statement rfl hstatements, hbound⟩
    · rw [status_of_error hreply] at hstatus
      omega
  · rintro ⟨cursor, bound, hdecode, hbound⟩
    have hne : text ≠ "" := by
      rintro rfl
      cases hdecode
    obtain ⟨cursorAt, cursorId, hcursor, -⟩ := bound?_eq_some.mp hbound
    rw [ServedOrRefused, serve_of_bound rfl hne hdecode hbound]
    refine ⟨.inl ⟨cursor, bound, rfl, hbound, rfl⟩, nofun, ?_⟩
    intro statement hstatement
    obtain rfl := List.mem_singleton.mp hstatement
    exact ⟨.string cursorAt, cursorId, congrArg some hcursor⟩

/-- A server that reads no text as a date and answers irregular statements with an error. -/
def strictServer : Server := ⟨fun _ => none, fun _ _ => none⟩

/-- A request with nothing but a cursor. -/
def cursorOnly (text : String) : ListMatchesDto :=
  ⟨none, none, none, some text, none, nofun, nofun, nofun⟩

/-- A text that is no base64 of a JSON text is a 500. -/
theorem not_servedOrRefused_abc :
    ¬ ∀ (server : Server) (offset : Int) (w : World) (dto : ListMatchesDto) (text : String),
      ServedOrRefused server offset w { dto with cursor := some text } := by
  intro h
  have hserved := h strictServer 0 (World.withUsers (.empty _)) (cursorOnly "") "abc"
  exact hserved.2.1 _ rfl rfl

end FoosballApi.Matches.TextCursor
