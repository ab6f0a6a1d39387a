import FoosballApi.Text.Json

/-!
# The texts of `JSON.stringify`

`Plain` are the values a program writes whose numbers are naturals, `render` is the text that
`JSON.stringify` writes of one, and `parse_render` says that `JSON.parse` reads the value back from
it, whatever strings it holds and however deep it is.
-/

namespace FoosballApi.Text

/-- A value of strings and naturals. -/
inductive Plain where
  | null
  | bool (value : Bool)
  | nat (value : Nat)
  | string (value : String)
  | array (items : List Plain)
  | object (members : List (String × Plain))

namespace Plain

mutual

/-- `JSON.stringify(value)`. -/
def render : Plain → List Char
  | .null => ['n', 'u', 'l', 'l']
  | .bool true => ['t', 'r', 'u', 'e']
  | .bool false => ['f', 'a', 'l', 's', 'e']
  | .nat value => Nat.toDigits 10 value
  | .string value => Json.quote value
  | .array [] => ['[', ']']
  | .array (v :: rest) => '[' :: (render v ++ (renderItems rest ++ [']']))
  | .object [] => ['{', '}']
  | .object ((key, v) :: rest) =>
      '{' :: (Json.quote key ++ ':' :: (render v ++ (renderMembers rest ++ ['}'])))

/-- The items after the first one. -/
def renderItems : List Plain → List Char
  | [] => []
  | v :: rest => ',' :: (render v ++ renderItems rest)

/-- The members after the first one. -/
def renderMembers : List (String × Plain) → List Char
  | [] => []
  | (key, v) :: rest => ',' :: (Json.quote key ++ ':' :: (render v ++ renderMembers rest))

end

mutual

/-- The value that is read back. -/
def toJson : Plain → Json
  | .null => .null
  | .bool value => .bool value
  | .nat value => .number false value 0
  | .string value => .string value
  | .array items => .array (toItems items)
  | .object members => .object (toMembers members)

/-- The items of an array that is read back. -/
def toItems : List Plain → List Json
  | [] => []
  | v :: rest => toJson v :: toItems rest

/-- The members of an object that is read back. -/
def toMembers : List (String × Plain) → List (String × Json)
  | [] => []
  | (key, v) :: rest => (key, toJson v) :: toMembers rest

end

end Plain

namespace Json

/-! ## The end of a value -/

/-- The machine has read a value, or the last character of a word or of a number. -/
inductive Machine.Ends (v : Json) (stack : List Frame) : Machine → Prop
  | after : Machine.Ends v stack ⟨.after v, stack⟩
  | word : Machine.Ends v stack ⟨.word [] v, stack⟩
  | number {part : NumberPart} {text : NumberText} (integer : part = .zero ∨ part = .integer)
      (value : text.value = v) : Machine.Ends v stack ⟨.number part text, stack⟩

/-- A number goes on with digits, a point or an exponent. -/
theorem NumberText.next_of_separator {part : NumberPart} (text : NumberText)
    (hpart : part = .zero ∨ part = .integer) {c : Char} (hc : c = ',' ∨ c = ']' ∨ c = '}') :
    text.next part c = none := by
  rcases hpart with rfl | rfl <;> rcases hc with rfl | rfl | rfl <;> rfl

/-- A separator ends a value. -/
theorem Machine.Ends.next {v : Json} {stack : List Frame} {m : Machine} (h : m.Ends v stack)
    {c : Char} (hc : c = ',' ∨ c = ']' ∨ c = '}') : m.next c = endValue v stack c := by
  cases h with
  | after | word => rfl
  | @number part text integer value =>
      have hcomplete : part.complete = true := by rcases integer with rfl | rfl <;> rfl
      unfold Machine.next
      simp only [NumberText.next_of_separator text integer hc, hcomplete, if_true, value]

/-- The end of the text ends the outermost value. -/
theorem Machine.Ends.result {v : Json} {m : Machine} (h : m.Ends v []) : m.result = some v := by
  cases h with
  | after | word => rfl
  | @number part text integer value =>
      have hcomplete : part.complete = true := by rcases integer with rfl | rfl <;> rfl
      unfold Machine.result
      simp only [hcomplete, if_true, value]

/-! ## Digits -/

/-- The digit of a value below ten. -/
theorem digit?_digitChar {n : Nat} (hn : n < 10) : digit? n.digitChar = some n := by
  interval_cases n <;> rfl

/-- The digits of a positive number are read as its mantissa. -/
theorem run_toDigits {n : Nat} (hn : 0 < n) (stack : List Frame) :
    (⟨.value, stack⟩ : Machine).run (Nat.toDigits 10 n) =
      some ⟨.number .integer { mantissa := n }, stack⟩ := by
  induction n using Nat.strong_induction_on with
  | _ n ih =>
      by_cases hlt : n < 10
      · rw [Nat.toDigits_of_lt_base hlt]
        interval_cases n <;> rfl
      · have hdiv : 0 < n / 10 := by omega
        rw [Nat.toDigits_of_base_le (by omega) (by omega), Machine.run_append,
          ih (n / 10) (by omega) hdiv]
        have hdigit := digit?_digitChar (show n % 10 < 10 by omega)
        have hmantissa : n / 10 * 10 + n % 10 = n := by omega
        show (Machine.next _ (n % 10).digitChar).bind some = _
        simp only [Machine.next, NumberText.next, hdigit, NumberText.push, hmantissa,
          Option.bind_some]

/-- A natural is read as it is written. -/
theorem run_nat (n : Nat) (stack : List Frame) :
    ∃ m, (⟨.value, stack⟩ : Machine).run (Nat.toDigits 10 n) = some m ∧
      m.Ends (.number false n 0) stack := by
  rcases Nat.eq_zero_or_pos n with rfl | hn
  · exact ⟨_, rfl, .number (.inl rfl) rfl⟩
  · exact ⟨_, run_toDigits hn stack, .number (.inr rfl) rfl⟩

/-! ## Reading back -/

/-- A value does not begin with a blank or a bracket that closes an array. -/
theorem render_head (v : Plain) :
    ∃ c cs, v.render = c :: cs ∧ isBlank c = false ∧ c ≠ ']' := by
  cases v with
  | null => exact ⟨_, _, by rw [Plain.render], rfl, by decide⟩
  | bool value => cases value <;> exact ⟨_, _, by rw [Plain.render], rfl, by decide⟩
  | string value => exact ⟨_, _, by rw [Plain.render, quote, List.cons_append], rfl, by decide⟩
  | array items => cases items <;> exact ⟨_, _, by rw [Plain.render], rfl, by decide⟩
  | object members =>
      cases members <;> exact ⟨_, _, by rw [Plain.render], rfl, by decide⟩
  | nat value =>
      rw [Plain.render]
      cases hdigits : Nat.toDigits 10 value with
      | nil => exact absurd hdigits Nat.toDigits_ne_nil
      | cons c cs =>
          have hdigit : c.isDigit := Nat.isDigit_of_mem_toDigits (b := 10) (n := value) (by decide)
            (by decide) (hdigits ▸ List.mem_cons_self)
          have hother : ∀ other : Char, other.isDigit = false → c ≠ other := by
            rintro other hother rfl
            cases hother.symm.trans hdigit
          refine ⟨c, cs, rfl, ?_, hother ']' rfl⟩
          simp [isBlank, hother ' ' rfl, hother '\t' rfl, hother '\n' rfl, hother '\r' rfl]

/-- The first item of an array is read as any value. -/
theorem run_firstItem (v : Plain) (stack : List Frame) (rest : List Char) :
    (⟨.firstItem, stack⟩ : Machine).run (v.render ++ rest) =
      (⟨.value, stack⟩ : Machine).run (v.render ++ rest) := by
  obtain ⟨c, cs, hrender, hblank, hclose⟩ := render_head v
  rw [hrender]
  simp only [List.cons_append, Machine.run, Machine.next, hblank, hclose, Bool.false_eq_true,
    if_false]

mutual

/-- What was written of a value is read as the value. -/
theorem run_render : (v : Plain) → (stack : List Frame) →
    ∃ m, (⟨.value, stack⟩ : Machine).run v.render = some m ∧ m.Ends v.toJson stack
  | .null, _ => ⟨_, rfl, .word⟩
  | .bool true, _ => ⟨_, rfl, .word⟩
  | .bool false, _ => ⟨_, rfl, .word⟩
  | .nat value, stack => by
      rw [Plain.render, Plain.toJson]
      exact run_nat value stack
  | .string value, stack => by
      rw [Plain.render, Plain.toJson]
      exact ⟨_, run_quote_value value stack, .after⟩
  | .array [], _ => ⟨_, rfl, .after⟩
  | .object [], _ => ⟨_, rfl, .after⟩
  | .array (v :: rest), stack => by
      obtain ⟨m, hrun, hends⟩ := run_render v (.array [] :: stack)
      have hopen : (⟨.value, stack⟩ : Machine).run (Plain.array (v :: rest)).render =
          (⟨.firstItem, .array [] :: stack⟩ : Machine).run
            (v.render ++ (Plain.renderItems rest ++ [']'])) := by
        rw [Plain.render]
        rfl
      rw [hopen, run_firstItem, Machine.run_append, hrun, Option.bind_some,
        run_renderItems rest m hends, Plain.toJson, Plain.toItems]
      exact ⟨_, rfl, .after⟩
  | .object ((key, v) :: rest), stack => by
      obtain ⟨m, hrun, hends⟩ := run_render v (.member [] key :: stack)
      have hopen : (⟨.value, stack⟩ : Machine).run (Plain.object ((key, v) :: rest)).render =
          (⟨.firstKey, .object [] :: stack⟩ : Machine).run
            (quote key ++ ':' :: (v.render ++ (Plain.renderMembers rest ++ ['}']))) := by
        rw [Plain.render]
        rfl
      have hcolon : ∀ cs, (⟨.colon, .member [] key :: stack⟩ : Machine).run (':' :: cs) =
          (⟨.value, .member [] key :: stack⟩ : Machine).run cs := fun cs => rfl
      rw [hopen, Machine.run_append, run_quote_key _ _ _ (.inl rfl), Option.bind_some, hcolon,
        Machine.run_append, hrun, Option.bind_some, run_renderMembers rest m hends, Plain.toJson,
        Plain.toMembers]
      exact ⟨_, rfl, .after⟩

/-- The items after one that was read. -/
theorem run_renderItems : (vs : List Plain) → (m : Machine) → {u : Json} → {items : List Json} →
    {stack : List Frame} → m.Ends u (.array items :: stack) →
    m.run (Plain.renderItems vs ++ [']']) =
      some ⟨.after (.array ((u :: items).reverse ++ Plain.toItems vs)), stack⟩
  | [], m, u, items, stack, hends => by
      rw [Plain.renderItems, Plain.toItems, List.append_nil]
      show (m.next ']').bind some = _
      rw [hends.next (.inr (.inl rfl))]
      rfl
  | v :: rest, m, u, items, stack, hends => by
      obtain ⟨m', hrun, hends'⟩ := run_render v (.array (u :: items) :: stack)
      rw [Plain.renderItems, Plain.toItems, List.cons_append, List.append_assoc, Machine.run,
        hends.next (.inl rfl)]
      show (⟨.value, .array (u :: items) :: stack⟩ : Machine).run _ = _
      rw [Machine.run_append, hrun, Option.bind_some, run_renderItems rest m' hends']
      simp

/-- The members after one that was read. -/
theorem run_renderMembers : (members : List (String × Plain)) → (m : Machine) → {u : Json} →
    {key : String} → {earlier : List (String × Json)} → {stack : List Frame} →
    m.Ends u (.member earlier key :: stack) →
    m.run (Plain.renderMembers members ++ ['}']) =
      some ⟨.after (.object (((key, u) :: earlier).reverse ++ Plain.toMembers members)), stack⟩
  | [], m, u, key, earlier, stack, hends => by
      rw [Plain.renderMembers, Plain.toMembers, List.append_nil]
      show (m.next '}').bind some = _
      rw [hends.next (.inr (.inr rfl))]
      rfl
  | (key', v) :: rest, m, u, key, earlier, stack, hends => by
      obtain ⟨m', hrun, hends'⟩ := run_render v (.member ((key, u) :: earlier) key' :: stack)
      rw [Plain.renderMembers, Plain.toMembers, List.cons_append, List.append_assoc, Machine.run,
        hends.next (.inl rfl)]
      show (⟨.nextKey, .object ((key, u) :: earlier) :: stack⟩ : Machine).run _ = _
      have hcolon : ∀ cs, (⟨.colon, .member ((key, u) :: earlier) key' :: stack⟩ : Machine).run
          (':' :: cs) = (⟨.value, .member ((key, u) :: earlier) key' :: stack⟩ : Machine).run cs :=
        fun cs => rfl
      rw [Machine.run_append, run_quote_key _ _ _ (.inr rfl), Option.bind_some, List.cons_append,
        hcolon, List.append_assoc, Machine.run_append, hrun, Option.bind_some,
        run_renderMembers rest m' hends']
      simp

end

/-- `JSON.parse` reads back what `JSON.stringify` has written. -/
theorem parse_render (v : Plain) : parse v.render = some v.toJson := by
  obtain ⟨m, hrun, hends⟩ := run_render v []
  rw [parse, hrun, Option.bind_some, hends.result]

end Json

end FoosballApi.Text
