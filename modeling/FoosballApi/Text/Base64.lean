import FoosballApi.Text.Unicode

/-!
# Base64 as `Buffer` writes and reads it

`Buffer.from(text, 'base64')` accepts every text: it reads the low bytes of the UTF-16 code units
up to the first `=`, passes over those that are no base64 digits, and drops what is left of an
incomplete byte. The digits of the URL alphabet are read like the two they stand for.
-/

namespace FoosballApi.Text

/-- The digit of a value below 64. -/
def base64Digit (value : Nat) : Nat :=
  if value < 26 then value + 0x41
  else if value < 52 then value + 0x47
  else if value < 62 then value - 4
  else if value = 62 then 0x2b
  else 0x2f

/-- The value of a digit. -/
def base64Value (digit : Nat) : Option Nat :=
  if 0x41 ≤ digit ∧ digit ≤ 0x5a then some (digit - 0x41)
  else if 0x61 ≤ digit ∧ digit ≤ 0x7a then some (digit - 0x47)
  else if 0x30 ≤ digit ∧ digit ≤ 0x39 then some (digit + 4)
  else if digit = 0x2b ∨ digit = 0x2d then some 62
  else if digit = 0x2f ∨ digit = 0x5f then some 63
  else none

/-- The digits of bytes, padded with `=` to a multiple of four. -/
def toBase64 : List Nat → List Nat
  | [] => []
  | [a] => [base64Digit (a / 4), base64Digit (a % 4 * 16), 0x3d, 0x3d]
  | [a, b] =>
      [base64Digit (a / 4), base64Digit (a % 4 * 16 + b / 16), base64Digit (b % 16 * 4), 0x3d]
  | a :: b :: c :: rest =>
      base64Digit (a / 4) :: base64Digit (a % 4 * 16 + b / 16) ::
        base64Digit (b % 16 * 4 + c / 64) :: base64Digit (c % 64) :: toBase64 rest

/-- The values of the digits that are read of a text. -/
def base64Values : List Nat → List Nat
  | [] => []
  | digit :: rest =>
      if digit = 0x3d then []
      else
        match base64Value digit with
        | some value => value :: base64Values rest
        | none => base64Values rest

/-- The bytes that the values of digits make up. -/
def base64Bytes : List Nat → List Nat
  | a :: b :: c :: d :: rest =>
      (a * 4 + b / 16) :: (b % 16 * 16 + c / 4) :: (c % 4 * 64 + d) :: base64Bytes rest
  | [a, b, c] => [a * 4 + b / 16, b % 16 * 16 + c / 4]
  | [a, b] => [a * 4 + b / 16]
  | _ => []

/-- The bytes of a text in base64, from its code units. -/
def ofBase64 (units : List Nat) : List Nat := base64Bytes (base64Values (units.map (· % 0x100)))

/-- `Buffer.from(text).toString('base64')`. -/
def textToBase64 (text : List Char) : String :=
  .ofList ((toBase64 (text.flatMap utf8)).map Char.ofNat)

/-- `Buffer.from(text, 'base64').toString('utf-8')`. -/
def textOfBase64 (text : String) : List Char := ofUtf8 (ofBase64 (text.toList.flatMap utf16))

/-- Each digit has its value, and is neither padding nor beyond ASCII. -/
theorem base64Value_digit {value : Nat} (h : value < 64) :
    base64Digit value < 0x80 ∧ base64Digit value ≠ 0x3d ∧
      base64Value (base64Digit value) = some value := by
  revert value
  decide

/-- The digits are read one by one. -/
theorem base64Values_digit {value : Nat} (h : value < 64) (rest : List Nat) :
    base64Values (base64Digit value :: rest) = value :: base64Values rest := by
  obtain ⟨_, hpadding, hvalue⟩ := base64Value_digit h
  rw [base64Values, if_neg hpadding, hvalue]

/-- The digits of bytes are ASCII. -/
theorem toBase64_lt {bytes : List Nat} (h : ∀ byte ∈ bytes, byte < 0x100) :
    ∀ digit ∈ toBase64 bytes, digit < 0x80 := by
  have hdigit : ∀ value, value < 64 → base64Digit value < 0x80 := fun _ hvalue =>
    (base64Value_digit hvalue).1
  induction bytes using toBase64.induct with
  | case1 => simp [toBase64]
  | case2 a =>
      have ha := h a (by simp)
      simp only [toBase64, List.mem_cons, List.not_mem_nil, or_false]
      rintro digit (rfl | rfl | rfl | rfl)
      · exact hdigit _ (by omega)
      · exact hdigit _ (by omega)
      all_goals omega
  | case3 a b =>
      have ha := h a (by simp)
      have hb := h b (by simp)
      simp only [toBase64, List.mem_cons, List.not_mem_nil, or_false]
      rintro digit (rfl | rfl | rfl | rfl)
      · exact hdigit _ (by omega)
      · exact hdigit _ (by omega)
      · exact hdigit _ (by omega)
      · omega
  | case4 a b c rest ih =>
      have ha := h a (by simp)
      have hb := h b (by simp)
      have hc := h c (by simp)
      simp only [toBase64, List.mem_cons]
      rintro digit (rfl | rfl | rfl | rfl | hrest)
      · exact hdigit _ (by omega)
      · exact hdigit _ (by omega)
      · exact hdigit _ (by omega)
      · exact hdigit _ (by omega)
      · exact ih (fun byte hbyte => h byte (by simp [hbyte])) digit hrest

/-- The values of the digits of bytes make up the bytes. -/
theorem base64Bytes_values {bytes : List Nat} (h : ∀ byte ∈ bytes, byte < 0x100) :
    base64Bytes (base64Values (toBase64 bytes)) = bytes := by
  induction bytes using toBase64.induct with
  | case1 => rfl
  | case2 a =>
      have ha := h a (by simp)
      rw [toBase64, base64Values_digit (by omega), base64Values_digit (by omega)]
      show [a / 4 * 4 + a % 4 * 16 / 16] = [a]
      congr 1
      omega
  | case3 a b =>
      have ha := h a (by simp)
      have hb := h b (by simp)
      rw [toBase64, base64Values_digit (by omega), base64Values_digit (by omega),
        base64Values_digit (by omega)]
      have hfirst : a / 4 * 4 + (a % 4 * 16 + b / 16) / 16 = a := by omega
      have hsecond : (a % 4 * 16 + b / 16) % 16 * 16 + b % 16 * 4 / 4 = b := by omega
      show [_, _] = _
      rw [hfirst, hsecond]
  | case4 a b c rest ih =>
      have ha := h a (by simp)
      have hb := h b (by simp)
      have hc := h c (by simp)
      rw [toBase64, base64Values_digit (by omega), base64Values_digit (by omega),
        base64Values_digit (by omega), base64Values_digit (by omega), base64Bytes,
        ih fun byte hbyte => h byte (by simp [hbyte])]
      have hfirst : a / 4 * 4 + (a % 4 * 16 + b / 16) / 16 = a := by omega
      have hsecond : (a % 4 * 16 + b / 16) % 16 * 16 + (b % 16 * 4 + c / 64) / 4 = b := by omega
      have hthird : (b % 16 * 4 + c / 64) % 4 * 64 + c % 64 = c := by omega
      rw [hfirst, hsecond, hthird]

/-- Decoding undoes encoding. -/
theorem ofBase64_toBase64 {bytes : List Nat} (h : ∀ byte ∈ bytes, byte < 0x100) :
    ofBase64 (toBase64 bytes) = bytes := by
  have hlow : (toBase64 bytes).map (· % 0x100) = (toBase64 bytes).map id := by
    refine List.map_congr_left fun digit hdigit => Nat.mod_eq_of_lt ?_
    have hascii := toBase64_lt h digit hdigit
    omega
  rw [ofBase64, hlow, List.map_id, base64Bytes_values h]

theorem toNat_ascii {unit : Nat} (h : unit < 0x80) : (Char.ofNat unit).toNat = unit := by
  revert unit
  decide

/-- ASCII text has one code unit for each character. -/
theorem utf16_ascii {units : List Nat} (h : ∀ unit ∈ units, unit < 0x80) :
    (units.map Char.ofNat).flatMap utf16 = units := by
  induction units with
  | nil => rfl
  | cons unit units ih =>
      have hunit := h unit (by simp)
      rw [List.map_cons, List.flatMap_cons, ih fun other hother => h other (by simp [hother]),
        utf16, toNat_ascii hunit, if_pos (by omega), List.singleton_append]

/-- A text in base64 stands for the text. -/
theorem textOfBase64_textToBase64 (text : List Char) :
    textOfBase64 (textToBase64 text) = text := by
  have hbytes : ∀ byte ∈ text.flatMap utf8, byte < 0x100 := by
    intro byte hbyte
    obtain ⟨c, -, hc⟩ := List.mem_flatMap.mp hbyte
    exact utf8_lt c byte hc
  rw [textOfBase64, textToBase64, String.toList_ofList, utf16_ascii (toBase64_lt hbytes),
    ofBase64_toBase64 hbytes, ofUtf8_utf8]

end FoosballApi.Text
