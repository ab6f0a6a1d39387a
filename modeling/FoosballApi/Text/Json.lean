import FoosballApi.Text.Unicode
import Mathlib.Tactic.IntervalCases

/-!
# `JSON.parse` and the texts it reads back

`Json.parse` reads a text one character at a time: `Mode` is what the next character may be, and the
stack holds the arrays and objects that are still open. A text that the machine refuses is a
`SyntaxError`. Numbers are kept as their decimal digits; `Json.integer?` is the value of the double
they are read as.
-/

namespace FoosballApi.Text

/-- A value. A number is `± mantissa * 10 ^ exponent`. -/
inductive Json where
  | null
  | bool (value : Bool)
  | number (negative : Bool) (mantissa : Nat) (exponent : Int)
  | string (value : String)
  | array (items : List Json)
  | object (members : List (String × Json))

namespace Json

/-- The characters between two tokens. -/
def isBlank (c : Char) : Bool := c = ' ' || c = '\t' || c = '\n' || c = '\r'

/-- The value of a decimal digit. -/
def digit? (c : Char) : Option Nat :=
  if '0' ≤ c ∧ c ≤ '9' then some (c.toNat - '0'.toNat) else none

/-- The value of a hexadecimal digit. -/
def hexDigit? (c : Char) : Option Nat :=
  if '0' ≤ c ∧ c ≤ '9' then some (c.toNat - '0'.toNat)
  else if 'a' ≤ c ∧ c ≤ 'f' then some (c.toNat - 'a'.toNat + 10)
  else if 'A' ≤ c ∧ c ≤ 'F' then some (c.toNat - 'A'.toNat + 10)
  else none

/-! ## Numbers -/

/-- The part of a number that was read last. -/
inductive NumberPart where
  | minus | zero | integer | point | fraction | exponent | exponentSign | exponentDigits

/-- The part may be the last one. -/
def NumberPart.complete : NumberPart → Bool
  | .zero | .integer | .fraction | .exponentDigits => true
  | _ => false

/-- What was read of a number. -/
structure NumberText where
  negative : Bool := false
  mantissa : Nat := 0
  fractionDigits : Nat := 0
  exponentNegative : Bool := false
  exponent : Nat := 0

namespace NumberText

/-- The number that was read. -/
def value (text : NumberText) : Json :=
  let exponent : Int := if text.exponentNegative then -text.exponent else text.exponent
  .number text.negative text.mantissa (exponent - text.fractionDigits)

/-- A digit of the mantissa. -/
def push (text : NumberText) (digit : Nat) : NumberText :=
  { text with mantissa := text.mantissa * 10 + digit }

/-- A digit of the mantissa after the point. -/
def pushFraction (text : NumberText) (digit : Nat) : NumberText :=
  { text.push digit with fractionDigits := text.fractionDigits + 1 }

/-- A digit of the exponent. -/
def pushExponent (text : NumberText) (digit : Nat) : NumberText :=
  { text with exponent := text.exponent * 10 + digit }

/-- The number after one more character, if that belongs to it. -/
def next (text : NumberText) (part : NumberPart) (c : Char) : Option (NumberPart × NumberText) :=
  match part, digit? c with
  | .minus, some 0 => some (.zero, text)
  | .minus, some digit | .integer, some digit => some (.integer, text.push digit)
  | .point, some digit | .fraction, some digit => some (.fraction, text.pushFraction digit)
  | .exponent, some digit | .exponentSign, some digit | .exponentDigits, some digit =>
      some (.exponentDigits, text.pushExponent digit)
  | .zero, none | .integer, none =>
      if c = '.' then some (.point, text)
      else if c = 'e' ∨ c = 'E' then some (.exponent, text)
      else none
  | .fraction, none => if c = 'e' ∨ c = 'E' then some (.exponent, text) else none
  | .exponent, none =>
      if c = '+' then some (.exponentSign, text)
      else if c = '-' then some (.exponentSign, { text with exponentNegative := true })
      else none
  | _, _ => none

end NumberText

/-! ## The machine -/

/-- The part of a string that is being read; `hex` has read some digits of `\u`. -/
inductive StringPart where
  | chars
  | escape
  | hex (digits value : Nat)

/-- What was read last. -/
inductive Mode where
  | value
  | firstItem
  | firstKey
  | nextKey
  | colon
  | after (v : Json)
  /-- The code units of a string so far, latest first. -/
  | string (isKey : Bool) (part : StringPart) (units : List Nat)
  | word (rest : List Char) (v : Json)
  | number (part : NumberPart) (text : NumberText)

/-- An array or an object that is open: what it has so far, latest first, and the key whose value is
being read. -/
inductive Frame where
  | array (items : List Json)
  | object (members : List (String × Json))
  | member (members : List (String × Json)) (key : String)

/-- A state of the machine. -/
structure Machine where
  mode : Mode
  stack : List Frame

/-- A character at the start of a value. -/
def beginValue (stack : List Frame) (c : Char) : Option Machine :=
  if c = '"' then some ⟨.string false .chars [], stack⟩
  else if c = '[' then some ⟨.firstItem, .array [] :: stack⟩
  else if c = '{' then some ⟨.firstKey, .object [] :: stack⟩
  else if c = 't' then some ⟨.word ['r', 'u', 'e'] (.bool true), stack⟩
  else if c = 'f' then some ⟨.word ['a', 'l', 's', 'e'] (.bool false), stack⟩
  else if c = 'n' then some ⟨.word ['u', 'l', 'l'] .null, stack⟩
  else if c = '-' then some ⟨.number .minus { negative := true }, stack⟩
  else
    match digit? c with
    | some 0 => some ⟨.number .zero {}, stack⟩
    | some digit => some ⟨.number .integer { mantissa := digit }, stack⟩
    | none => none

/-- A character after a value. -/
def endValue (v : Json) (stack : List Frame) (c : Char) : Option Machine :=
  if isBlank c then some ⟨.after v, stack⟩
  else
    match stack with
    | .array items :: rest =>
        if c = ',' then some ⟨.value, .array (v :: items) :: rest⟩
        else if c = ']' then some ⟨.after (.array (v :: items).reverse), rest⟩
        else none
    | .member members key :: rest =>
        if c = ',' then some ⟨.nextKey, .object ((key, v) :: members) :: rest⟩
        else if c = '}' then some ⟨.after (.object ((key, v) :: members).reverse), rest⟩
        else none
    | _ => none

/-- The end of a string, which is a key or a value. -/
def endString (isKey : Bool) (units : List Nat) (stack : List Frame) : Option Machine :=
  let text := String.ofList (ofUtf16 units.reverse)
  match isKey, stack with
  | true, .object members :: rest => some ⟨.colon, .member members text :: rest⟩
  | true, _ => none
  | false, stack => some ⟨.after (.string text), stack⟩

/-- The code unit of a short escape. -/
def escaped (c : Char) : Option Nat :=
  if c = '"' ∨ c = '\\' ∨ c = '/' then some c.toNat
  else if c = 'b' then some 0x08
  else if c = 'f' then some 0x0c
  else if c = 'n' then some 0x0a
  else if c = 'r' then some 0x0d
  else if c = 't' then some 0x09
  else none

/-- A character of a string. -/
def nextInString (isKey : Bool) (part : StringPart) (units : List Nat) (stack : List Frame)
    (c : Char) : Option Machine :=
  match part with
  | .chars =>
      if c = '"' then endString isKey units stack
      else if c = '\\' then some ⟨.string isKey .escape units, stack⟩
      else if c.toNat < 0x20 then none
      else some ⟨.string isKey .chars ((utf16 c).reverse ++ units), stack⟩
  | .escape =>
      if c = 'u' then some ⟨.string isKey (.hex 0 0) units, stack⟩
      else (escaped c).map fun unit => ⟨.string isKey .chars (unit :: units), stack⟩
  | .hex digits value =>
      (hexDigit? c).map fun digit =>
        let value := value * 16 + digit
        if digits = 3 then ⟨.string isKey .chars (value :: units), stack⟩
        else ⟨.string isKey (.hex (digits + 1) value) units, stack⟩

/-- The machine after one more character. -/
def Machine.next (m : Machine) (c : Char) : Option Machine :=
  match m.mode with
  | .value => if isBlank c then some m else beginValue m.stack c
  | .firstItem =>
      if isBlank c then some m
      else if c = ']' then some ⟨.after (.array []), m.stack.tail⟩
      else beginValue m.stack c
  | .firstKey =>
      if isBlank c then some m
      else if c = '}' then some ⟨.after (.object []), m.stack.tail⟩
      else if c = '"' then some ⟨.string true .chars [], m.stack⟩
      else none
  | .nextKey =>
      if isBlank c then some m
      else if c = '"' then some ⟨.string true .chars [], m.stack⟩
      else none
  | .colon =>
      if isBlank c then some m else if c = ':' then some ⟨.value, m.stack⟩ else none
  | .after v => endValue v m.stack c
  | .string isKey part units => nextInString isKey part units m.stack c
  | .word [] v => endValue v m.stack c
  | .word (letter :: rest) v => if c = letter then some ⟨.word rest v, m.stack⟩ else none
  | .number part text =>
      match text.next part c with
      | some (part, text) => some ⟨.number part text, m.stack⟩
      | none => if part.complete then endValue text.value m.stack c else none

/-- The machine after a text. -/
def Machine.run (m : Machine) : List Char → Option Machine
  | [] => some m
  | c :: rest => (m.next c).bind (run · rest)

/-- The value that a machine has read when the text ends. -/
def Machine.result (m : Machine) : Option Json :=
  match m.mode, m.stack with
  | .after v, [] => some v
  | .word [] v, [] => some v
  | .number part text, [] => if part.complete then some text.value else none
  | _, _ => none

/-- `JSON.parse(text)`; `none` is a `SyntaxError`. -/
def parse (text : List Char) : Option Json :=
  ((⟨.value, []⟩ : Machine).run text).bind Machine.result

/-- The value of a member of an object; of two members with one key the later counts. -/
def member? (members : List (String × Json)) (key : String) : Option Json :=
  (members.reverse.find? (·.1 = key)).map (·.2)

/-- A field of a value; `none` is `undefined`. -/
def field? : Json → String → Option Json
  | .object members, key => member? members key
  | _, _ => none

/-! ## `JSON.stringify` -/

/-- A digit of a `\\u` escape. -/
def hexDigit (value : Nat) : Char :=
  if value < 10 then Char.ofNat (value + 0x30) else Char.ofNat (value + 0x57)

/-- A character inside a quoted string. -/
def quoteChar (c : Char) : List Char :=
  if c = '"' ∨ c = '\\' then ['\\', c]
  else if c.toNat = 0x08 then ['\\', 'b']
  else if c.toNat = 0x0c then ['\\', 'f']
  else if c.toNat = 0x0a then ['\\', 'n']
  else if c.toNat = 0x0d then ['\\', 'r']
  else if c.toNat = 0x09 then ['\\', 't']
  else if c.toNat < 0x20 then
    ['\\', 'u', '0', '0', hexDigit (c.toNat / 16), hexDigit (c.toNat % 16)]
  else [c]

/-- A string, quoted. -/
def quote (text : String) : List Char := '"' :: text.toList.flatMap quoteChar ++ ['"']

/-- An object whose members are strings. -/
def stringify : List (String × String) → List Char
  | [] => ['{', '}']
  | m :: rest =>
      '{' :: (quote m.1 ++ ':' :: quote m.2) ++
        (rest.flatMap (fun m => ',' :: (quote m.1 ++ ':' :: quote m.2)) ++ ['}'])

theorem Machine.run_append (m : Machine) (first second : List Char) :
    m.run (first ++ second) = (m.run first).bind (·.run second) := by
  induction first generalizing m with
  | nil => rfl
  | cons c first ih =>
      rw [List.cons_append, Machine.run, Machine.run]
      cases m.next c with
      | none => rfl
      | some m' => exact ih m'

/-- A quoted character is read as its code units. -/
theorem run_quoteChar (isKey : Bool) (units : List Nat) (stack : List Frame) (c : Char) :
    (⟨.string isKey .chars units, stack⟩ : Machine).run (quoteChar c) =
      some ⟨.string isKey .chars ((utf16 c).reverse ++ units), stack⟩ := by
  by_cases hcontrol : c.toNat < 0x20
  · obtain ⟨n, hn, rfl⟩ : ∃ n, n < 0x20 ∧ Char.ofNat n = c :=
      ⟨c.toNat, hcontrol, Char.ofNat_toNat c⟩
    clear hcontrol
    interval_cases n <;> rfl
  by_cases hquote : c = '"'
  · subst hquote
    rfl
  by_cases hescape : c = '\\'
  · subst hescape
    rfl
  have hplain : quoteChar c = [c] := by
    unfold quoteChar
    simp only [hquote, hescape, or_self, if_false]
    repeat rw [if_neg (by omega)]
  have hnext : nextInString isKey .chars units stack c =
      some ⟨.string isKey .chars ((utf16 c).reverse ++ units), stack⟩ := by
    simp [nextInString, hquote, hescape, hcontrol]
  rw [hplain]
  show (nextInString isKey .chars units stack c).bind some = _
  rw [hnext]
  rfl

/-- A quoted text is read as its code units. -/
theorem run_quoted (isKey : Bool) (units : List Nat) (stack : List Frame) (cs : List Char) :
    (⟨.string isKey .chars units, stack⟩ : Machine).run (cs.flatMap quoteChar) =
      some ⟨.string isKey .chars ((cs.flatMap utf16).reverse ++ units), stack⟩ := by
  induction cs generalizing units with
  | nil => rfl
  | cons c cs ih =>
      rw [List.flatMap_cons, Machine.run_append, run_quoteChar, Option.bind_some, ih]
      simp

/-- A quoted string is read as the text it quotes: as a value, and as a key of an open object. -/
theorem run_quote_value (text : String) (stack : List Frame) :
    (⟨.value, stack⟩ : Machine).run (quote text) = some ⟨.after (.string text), stack⟩ := by
  show (⟨.string false .chars [], stack⟩ : Machine).run (text.toList.flatMap quoteChar ++ ['"']) = _
  rw [Machine.run_append, run_quoted, Option.bind_some, List.append_nil]
  show (endString false (text.toList.flatMap utf16).reverse stack).bind some = _
  rw [endString, List.reverse_reverse, ofUtf16_utf16, String.ofList_toList]
  rfl

theorem run_quote_key (text : String) (members : List (String × Json)) (stack : List Frame)
    {mode : Mode} (hmode : mode = .firstKey ∨ mode = .nextKey) :
    (⟨mode, .object members :: stack⟩ : Machine).run (quote text) =
      some ⟨.colon, .member members text :: stack⟩ := by
  have hopen : (⟨mode, .object members :: stack⟩ : Machine).run (quote text) =
      (⟨.string true .chars [], .object members :: stack⟩ : Machine).run
        (text.toList.flatMap quoteChar ++ ['"']) := by
    rcases hmode with rfl | rfl <;> rfl
  rw [hopen, Machine.run_append, run_quoted, Option.bind_some, List.append_nil]
  show (endString true (text.toList.flatMap utf16).reverse (.object members :: stack)).bind some = _
  rw [endString, List.reverse_reverse, ofUtf16_utf16, String.ofList_toList]
  rfl

/-- A member whose value is a string. -/
theorem run_member (member : String × String) (members : List (String × Json))
    (stack : List Frame) {mode : Mode} (hmode : mode = .firstKey ∨ mode = .nextKey) :
    (⟨mode, .object members :: stack⟩ : Machine).run (quote member.1 ++ ':' :: quote member.2) =
      some ⟨.after (.string member.2), .member members member.1 :: stack⟩ := by
  rw [Machine.run_append, run_quote_key _ _ _ hmode, Option.bind_some]
  exact run_quote_value member.2 _

/-- The members that follow one that was read. -/
theorem run_members (rest : List (String × String)) (v : Json) (key : String)
    (members : List (String × Json)) (stack : List Frame) :
    (⟨.after v, .member members key :: stack⟩ : Machine).run
        (rest.flatMap (fun m => ',' :: (quote m.1 ++ ':' :: quote m.2)) ++ ['}']) =
      some ⟨.after (.object (((key, v) :: members).reverse ++
        rest.map fun m => (m.1, .string m.2))), stack⟩ := by
  induction rest generalizing v key members with
  | nil =>
      rw [List.flatMap_nil, List.map_nil, List.append_nil]
      rfl
  | cons m rest ih =>
      rw [List.flatMap_cons, List.append_assoc]
      show (⟨.nextKey, .object ((key, v) :: members) :: stack⟩ : Machine).run
        ((quote m.1 ++ ':' :: quote m.2) ++ _) = _
      rw [Machine.run_append, run_member m _ _ (.inr rfl), Option.bind_some, ih]
      simp

/-- `JSON.parse` reads back what `JSON.stringify` has written of an object of strings. -/
theorem parse_stringify (members : List (String × String)) :
    parse (stringify members) = some (.object (members.map fun m => (m.1, .string m.2))) := by
  cases members with
  | nil => rfl
  | cons m rest =>
      have hopen : (⟨.value, []⟩ : Machine).run (stringify (m :: rest)) =
          (⟨.firstKey, [.object []]⟩ : Machine).run ((quote m.1 ++ ':' :: quote m.2) ++
            (rest.flatMap (fun m => ',' :: (quote m.1 ++ ':' :: quote m.2)) ++ ['}'])) := rfl
      rw [parse, hopen, Machine.run_append, run_member m _ _ (.inl rfl), Option.bind_some,
        run_members]
      rfl

/-! ## Integers among the doubles -/

/-- The integer nearest to a quotient, the even one of two that are equally near. -/
def roundHalfEven (num den : Nat) : Nat :=
  let floor := num / den
  let rest := num % den
  if 2 * rest < den ∨ 2 * rest = den ∧ floor % 2 = 0 then floor else floor + 1

/-- The double nearest to `num / den`, when it is a finite integer. A double is a multiple of
`2 ^ unit` with at most 53 bits, where `unit` is -1074 at least. -/
def nearestInteger (num den : Nat) : Option Nat :=
  let log : Int := (num.log2 : Int) - den.log2
  let below : Bool := num * 2 ^ (-log).toNat < den * 2 ^ log.toNat
  let unit : Int := max (-1074) (log - if below then 53 else 52)
  let steps := roundHalfEven (num * 2 ^ (-unit).toNat) (den * 2 ^ unit.toNat)
  if steps % 2 ^ (-unit).toNat = 0 then
    let value := steps * 2 ^ unit.toNat / 2 ^ (-unit).toNat
    if value < 2 ^ 1024 then some value else none
  else none

/-- The integer that a number is read as, when it is read as one. Digits far beyond the range of the
doubles are read as an infinity or as zero. -/
def integer? (negative : Bool) (mantissa : Nat) (exponent : Int) : Option Int :=
  let magnitude :=
    if mantissa = 0 ∨ exponent < -400 - mantissa.log2 then some 0
    else if 400 < exponent then none
    else nearestInteger (mantissa * 10 ^ exponent.toNat) (10 ^ (-exponent).toNat)
  magnitude.map fun value => if negative then -(value : Int) else value

end Json

end FoosballApi.Text
