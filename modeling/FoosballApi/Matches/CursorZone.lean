import FoosballApi.Matches.TextCursor

/-!
# The cursor and the zone of the process

A row's cursor spells the instant of the row in UTC, and the server takes it for a wall clock like
those it stores. Unless the process runs in UTC, the next page therefore begins at a time that is
off by the offset: `cursor_selects_iff` says for which rows that matters. East of Greenwich the rows
of the last hours before the cursor are passed over. West of it rows come again, the last row of the
page among them.

In UTC the server answers as the listing does whose codec is the text of the cursors
(`list_eq_serve`).
-/

namespace FoosballApi.Matches.TextCursor

open Calls Text

variable {server : Server} {literal : String → Option Int} {offset : Int} {w : World}
  {dto : ListMatchesDto} {r x : SortColumns}

/-- A cursor is decoded, and its `WHERE` clause selects a row. -/
def Selected (literal : String → Option Int) (text : String) (x : SortColumns) : Prop :=
  ∃ cursor bound, decodeCursor text = .ok cursor ∧ cursor.bound? literal = some bound ∧
    x.Below bound

/-- A row selects what is below its bound in UTC. -/
theorem selected_encodeCursor (hliteral : ReadsClock literal offset r) :
    Selected literal (encodeCursor offset r) x ↔ x.Below (utcBound offset r) := by
  obtain ⟨cursor, hdecode, hbound⟩ := bound?_encodeCursor hliteral
  constructor
  · rintro ⟨cursor', bound, hdecode', hbound', hbelow⟩
    obtain rfl : cursor = cursor' := Except.ok.inj (hdecode.symm.trans hdecode')
    obtain rfl : utcBound offset r = bound := Option.some.inj (hbound.symm.trans hbound')
    exact hbelow
  · intro hbelow
    exact ⟨cursor, utcBound offset r, hdecode, hbound, hbelow⟩

/-- The row `x` lies between the clock of `r` and the one that its cursor spells. Of the two times
the earlier one counts from the id of `r` on, and the later one up to it. -/
def SortColumns.InBand (offset : Int) (r x : SortColumns) : Prop :=
  let early := min r.createdAt (r.createdAt - offset)
  let late := max r.createdAt (r.createdAt - offset)
  (early ≤ x.createdAt ∧ x.createdAt ≤ late) ∧ (x.createdAt = early → r.id ≤ x.id) ∧
    (x.createdAt = late → x.id < r.id)

instance (offset : Int) (r x : SortColumns) : Decidable (r.InBand offset x) :=
  inferInstanceAs (Decidable ((_ ∧ _) ∧ _ ∧ _))

/-- The two bounds of a row differ on the band. -/
theorem below_utcBound_iff :
    (x.Below (utcBound offset r) ↔ x.Below r.bound) ↔ ¬ r.InBand offset x := by
  simp only [SortColumns.Below, SortColumns.bound, utcBound, SortColumns.InBand]
  omega

/-- In UTC there is no band. -/
theorem not_inBand_zero : ¬ r.InBand 0 x := by
  simp only [SortColumns.InBand]
  omega

/-- The `WHERE` clause of a row's cursor selects a row below it, and no other, exactly when the
process runs in UTC or the row lies outside the band. -/
theorem cursor_selects_iff (hliteral : ReadsClock literal offset r) :
    (Selected literal (encodeCursor offset r) x ↔ x.Below r.bound) ↔
      offset = 0 ∨ ¬ r.InBand offset x := by
  rw [selected_encodeCursor hliteral, below_utcBound_iff]
  constructor
  · exact .inr
  · rintro (rfl | hband)
    · exact not_inBand_zero
    · exact hband

/-- A server that reads seven numbers as the wall clock they spell, and nothing else. -/
def clockLiteral (text : String) : Option Int := (DateTime.ofText? text.toList).map (·.ms)

/-- It takes the text of every cursor for the wall clock that it spells. -/
theorem readsClock_clockLiteral (offset : Int) (r : SortColumns) :
    ReadsClock clockLiteral offset r := by
  rw [ReadsClock, clockLiteral, DateTime.ofText?_toISOString]
  rfl

/-- The offset of a process one hour east of Greenwich. -/
def oneHour : Int := 3600000

/-- A match created at noon on the 15th of June 2024, by the clock of the server. -/
def noonMatch : SortColumns := ⟨1718452800000, 7⟩

/-- Matches created half an hour and two hours before. -/
def halfPastEleven : SortColumns := ⟨1718451000000, 6⟩
def tenOClock : SortColumns := ⟨1718445600000, 5⟩

/-- Outside the band the cursor selects what it should. -/
theorem cursor_selects_iff_tenOClock :
    Selected clockLiteral (encodeCursor oneHour noonMatch) tenOClock ↔
      tenOClock.Below noonMatch.bound :=
  (cursor_selects_iff (readsClock_clockLiteral _ _)).mpr (.inr (by decide))

/-- One hour east of Greenwich a match of half past eleven is not on the page after noon. -/
theorem not_cursor_selects_halfPastEleven :
    ¬ ∀ (literal : String → Option Int) (offset : Int) (r x : SortColumns),
      ReadsClock literal offset r →
        (Selected literal (encodeCursor offset r) x ↔ x.Below r.bound) := by
  intro h
  have hreads := readsClock_clockLiteral oneHour noonMatch
  have hiff := h clockLiteral oneHour noonMatch halfPastEleven hreads
  rw [selected_encodeCursor hreads] at hiff
  exact absurd hiff (by decide)

/-- The next page begins after its cursor's row for every row there may be exactly in UTC. -/
theorem cursor_selects_all_iff (hliteral : ReadsClock literal offset r) :
    (∀ x, Selected literal (encodeCursor offset r) x ↔ x.Below r.bound) ↔ offset = 0 := by
  simp only [selected_encodeCursor hliteral, below_utcBound_iff]
  constructor
  · intro hband
    have hearly := hband ⟨min r.createdAt (r.createdAt - offset), r.id⟩
    simp only [SortColumns.InBand] at hearly
    omega
  · rintro rfl x
    exact not_inBand_zero

/-- A row is on the page after its own cursor exactly west of Greenwich. -/
theorem selects_itself_iff (hliteral : ReadsClock literal offset r) :
    Selected literal (encodeCursor offset r) r ↔ offset < 0 := by
  rw [selected_encodeCursor hliteral]
  simp only [SortColumns.Below, utcBound]
  omega

/-! ## The listing in UTC -/

/-- The sort key whose later rows are the ones below a bound. -/
def Bound.data (bound : Bound) : CursorData :=
  if bound.createdAt < 0 then ⟨0, 0⟩ else ⟨bound.createdAt.toNat, bound.id.toNat⟩

/-- The bound of a row in UTC stands for the key of the row. -/
theorem data_utcBound_zero (last : CursorData) :
    (utcBound 0 ⟨last.createdAt, last.id⟩).data = last := by
  simp [Bound.data, utcBound]

/-- No row was created before 1970. -/
theorem below_iff_data_lt {bound : Bound} {m : MatchEntity} :
    (sortColumns m.toMatchRow).Below bound ↔ bound.data.key < listKey m := by
  have hiff : ∀ createdAt id : Nat,
      (createdAt < bound.createdAt ∨ createdAt = bound.createdAt ∧ id < bound.id) ↔
        createdAt < bound.data.createdAt ∨
          createdAt = bound.data.createdAt ∧ id < bound.data.id := by
    intro createdAt id
    unfold Bound.data
    split <;> simp only <;> omega
  rw [cursor_lt]
  exact hiff _ _

/-- The page below a bound is the one after its key. -/
theorem pageBelow_eq (w : World) (params : ListParams) (bound : Bound) :
    pageBelow w params bound =
      Data.Keyset.page listKey params.limit (w.listed params) (some bound.data.key) := by
  have hrows : ((w.listed params).filter fun m => (sortColumns m.toMatchRow).Below bound).filter
      (Data.Keyset.After listKey none ·) =
        (w.listed params).filter (Data.Keyset.After listKey (some bound.data.key) ·) := by
    rw [List.filter_filter]
    refine List.filter_congr fun m _ => ?_
    rw [Bool.eq_iff_iff]
    simp [Data.Keyset.After, below_iff_data_lt]
  rw [pageBelow, Data.Keyset.page, Data.Keyset.page, Data.Keyset.sortedAfter,
    Data.Keyset.sortedAfter, hrows]

/-- The text of a cursor in UTC, for a server that reads its time. A text that spells no bound is an
error here, which is no `HttpException`. -/
def textCodec {literal : String → Option Int} (hliteral : ∀ r, ReadsClock literal 0 r) :
    CursorCodec where
  encode data := encodeCursor 0 ⟨data.createdAt, data.id⟩
  decode text :=
    match decodeCursor text with
    | .ok cursor => (cursor.bound? literal).elim (.error .unavailable) fun bound => .ok bound.data
    | .error _ => .error (.plain "SyntaxError")
  encode_ne data := encodeCursor_ne 0 ⟨data.createdAt, data.id⟩
  decode_encode data := by
    obtain ⟨cursor, hdecode, hbound⟩ := bound?_encodeCursor (hliteral ⟨data.createdAt, data.id⟩)
    rw [hdecode]
    dsimp only
    rw [hbound, Option.elim_some, data_utcBound_zero]

/-- A text that the codec decodes spells a bound for its key. -/
theorem bound_of_decode {literal : String → Option Int} {hliteral : ∀ r, ReadsClock literal 0 r}
    {text : String} {data : CursorData} (hdecode : (textCodec hliteral).decode text = .ok data) :
    ∃ cursor bound, decodeCursor text = .ok cursor ∧ cursor.bound? literal = some bound ∧
      bound.data = data := by
  unfold textCodec at hdecode
  dsimp only at hdecode
  split at hdecode
  · next cursor hcursor =>
      cases hbound : cursor.bound? literal with
      | none =>
          rw [hbound] at hdecode
          cases hdecode
      | some bound =>
          rw [hbound] at hdecode
          exact ⟨cursor, bound, hcursor, hbound, Except.ok.inj hdecode⟩
  · cases hdecode

/-- In UTC a cursor that can be decoded is answered with the keyset page after its key. -/
theorem serve_zero {hliteral : ∀ r, ReadsClock server.literal 0 r} {cursor : Option CursorData}
    (hcursor : MatchRepository.decodeCursor (textCodec hliteral) dto.cursor = .pure cursor) :
    (serve server 0 w dto).reply = .page (paginated 0 (listParams dto).limit
      (Data.Keyset.page listKey (listParams dto).limit (w.listed (listParams dto))
        (cursor.map (·.key)))) := by
  unfold MatchRepository.decodeCursor at hcursor
  split at hcursor
  · next htext =>
      obtain rfl : none = cursor := Prog.pure.inj hcursor
      have hnone : cursorParams dto.cursor = .ok none := by rw [cursorParams, htext]
      rw [serve_of_none hnone]
      rfl
  · next text htext =>
      obtain ⟨htext, hne⟩ := Option.filter_eq_some_iff.mp htext
      cases hdecode : (textCodec hliteral).decode text with
      | error failure =>
          rw [hdecode] at hcursor
          cases hcursor
      | ok data =>
          rw [hdecode] at hcursor
          obtain rfl : some data = cursor := Prog.pure.inj hcursor
          obtain ⟨params, bound, hparams, hbound, rfl⟩ := bound_of_decode hdecode
          rw [serve_of_bound htext (of_decide_eq_true hne) hparams hbound, pageBelow_eq]
          rfl

/-- In UTC the server answers with the page that the listing returns for the texts of its codec. -/
theorem list_eq_serve {hliteral : ∀ r, ReadsClock server.literal 0 r} {cursor : Option CursorData}
    (hcursor : MatchRepository.decodeCursor (textCodec hliteral) dto.cursor = .pure cursor)
    (calls : List Call) (s : Session) :
    (MatchService.list (textCodec hliteral) dto).after Matches.system Prog.noFaults calls s w
      fun out => out.world = w ∧
        ∃ page, out.result = .ok page ∧ (serve server 0 w dto).reply = .page page := by
  refine Prog.after_mono (findPaginated_after hcursor) fun out hout => ?_
  exact ⟨hout.1, _, hout.2, serve_zero hcursor⟩

end FoosballApi.Matches.TextCursor
