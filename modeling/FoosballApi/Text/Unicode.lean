import Mathlib.Logic.Basic

/-!
# UTF-8 and UTF-16

The code units of a text, and the text of code units that need not be well formed: what cannot be
decoded becomes U+FFFD, one for each maximal part of a character in UTF-8 and one for each lone
surrogate in UTF-16. Decoding undoes encoding.
-/

namespace FoosballApi.Text

/-- U+FFFD. -/
def replacement : Char := '\uFFFD'

/-- A code point that is a character, and no surrogate. -/
theorem toNat_range (c : Char) : c.toNat < 0xd800 ∨ 0xe000 ≤ c.toNat ∧ c.toNat < 0x110000 := by
  have hvalid := c.valid
  simp only [UInt32.isValidChar, Nat.isValidChar] at hvalid
  rw [Char.toNat]
  omega

/-! ## UTF-16 -/

/-- The code units of a character. -/
def utf16 (c : Char) : List Nat :=
  if c.toNat < 0x10000 then [c.toNat]
  else [0xd800 + (c.toNat - 0x10000) / 0x400, 0xdc00 + (c.toNat - 0x10000) % 0x400]

/-- Two code units are a high and a low surrogate. -/
def surrogatePair (high low : Nat) : Bool :=
  0xd800 ≤ high && high < 0xdc00 && (0xdc00 ≤ low && low < 0xe000)

/-- The character of a code unit that stands alone. -/
def singleUnit (unit : Nat) : Char :=
  if 0xd800 ≤ unit ∧ unit < 0xe000 then replacement else Char.ofNat unit

/-- The characters of code units. -/
def ofUtf16 : List Nat → List Char
  | [] => []
  | [unit] => [singleUnit unit]
  | high :: low :: rest =>
      if surrogatePair high low then
        Char.ofNat (0x10000 + (high - 0xd800) * 0x400 + (low - 0xdc00)) :: ofUtf16 rest
      else singleUnit high :: ofUtf16 (low :: rest)

/-- A code unit outside the surrogates is a character of its own. -/
theorem ofUtf16_cons {unit : Nat} (h : unit < 0xd800 ∨ 0xe000 ≤ unit) (rest : List Nat) :
    ofUtf16 (unit :: rest) = Char.ofNat unit :: ofUtf16 rest := by
  have hsingle : singleUnit unit = Char.ofNat unit := if_neg (by omega)
  cases rest with
  | nil =>
      show [singleUnit unit] = _
      rw [hsingle]
      rfl
  | cons low rest =>
      have hpair : surrogatePair unit low = false := by
        simp only [surrogatePair, Bool.and_eq_false_iff, decide_eq_false_iff_not]
        omega
      rw [ofUtf16, hpair, if_neg Bool.false_ne_true, hsingle]

/-- Decoding undoes encoding. -/
theorem ofUtf16_utf16 (cs : List Char) : ofUtf16 (cs.flatMap utf16) = cs := by
  induction cs with
  | nil => rfl
  | cons c cs ih =>
      have hrange := toNat_range c
      rw [List.flatMap_cons]
      by_cases hsmall : c.toNat < 0x10000
      · rw [utf16, if_pos hsmall, List.singleton_append, ofUtf16_cons (by omega), ih,
          Char.ofNat_toNat]
      · have hpair : surrogatePair (0xd800 + (c.toNat - 0x10000) / 0x400)
            (0xdc00 + (c.toNat - 0x10000) % 0x400) = true := by
          simp only [surrogatePair, Bool.and_eq_true, decide_eq_true_eq]
          omega
        have hpoint : 0x10000 + (0xd800 + (c.toNat - 0x10000) / 0x400 - 0xd800) * 0x400 +
            (0xdc00 + (c.toNat - 0x10000) % 0x400 - 0xdc00) = c.toNat := by omega
        rw [utf16, if_neg hsmall]
        show ofUtf16 (_ :: _ :: cs.flatMap utf16) = _
        rw [ofUtf16, if_pos hpair, hpoint, ih, Char.ofNat_toNat]

/-! ## UTF-8 -/

/-- The bytes of a character. -/
def utf8 (c : Char) : List Nat :=
  let point := c.toNat
  if point < 0x80 then [point]
  else if point < 0x800 then [0xc0 + point / 0x40, 0x80 + point % 0x40]
  else if point < 0x10000 then
    [0xe0 + point / 0x1000, 0x80 + point / 0x40 % 0x40, 0x80 + point % 0x40]
  else
    [0xf0 + point / 0x40000, 0x80 + point / 0x1000 % 0x40, 0x80 + point / 0x40 % 0x40,
      0x80 + point % 0x40]

/-- A character that has begun: the number of bytes it needs, the range of the next one, and the
bits it has so far. -/
structure Begun where
  needed : Nat
  low : Nat
  high : Nat
  point : Nat

/-- A byte between two characters: what it completes, and what it begins. -/
def firstByte (byte : Nat) : List Char × Option Begun :=
  if byte < 0x80 then ([Char.ofNat byte], none)
  else if 0xc2 ≤ byte ∧ byte < 0xe0 then ([], some ⟨1, 0x80, 0xbf, byte - 0xc0⟩)
  else if 0xe0 ≤ byte ∧ byte < 0xf0 then
    ([], some ⟨2, if byte = 0xe0 then 0xa0 else 0x80, if byte = 0xed then 0x9f else 0xbf,
      byte - 0xe0⟩)
  else if 0xf0 ≤ byte ∧ byte < 0xf5 then
    ([], some ⟨3, if byte = 0xf0 then 0x90 else 0x80, if byte = 0xf4 then 0x8f else 0xbf,
      byte - 0xf0⟩)
  else ([replacement], none)

/-- A byte after the first of a character. One that does not belong to it ends it and is read as the
first of another. -/
def nextByte (begun : Begun) (byte : Nat) : List Char × Option Begun :=
  if begun.low ≤ byte ∧ byte ≤ begun.high then
    let point := begun.point * 0x40 + (byte - 0x80)
    if begun.needed = 1 then ([Char.ofNat point], none)
    else ([], some ⟨begun.needed - 1, 0x80, 0xbf, point⟩)
  else
    let (chars, begun') := firstByte byte
    (replacement :: chars, begun')

/-- The characters of bytes, after what has begun. -/
def ofUtf8From : Option Begun → List Nat → List Char
  | none, [] => []
  | some _, [] => [replacement]
  | begun, byte :: rest =>
      let (chars, begun') := match begun with
        | none => firstByte byte
        | some begun => nextByte begun byte
      chars ++ ofUtf8From begun' rest

/-- The characters of bytes. -/
def ofUtf8 (bytes : List Nat) : List Char := ofUtf8From none bytes

/-- A byte that begins a character. -/
theorem ofUtf8From_first {byte : Nat} {begun : Begun} (h : firstByte byte = ([], some begun))
    (rest : List Nat) : ofUtf8From none (byte :: rest) = ofUtf8From (some begun) rest := by
  rw [ofUtf8From, h]
  rfl

/-- A byte that a character needs, and not the last. -/
theorem ofUtf8From_more {needed low high point byte : Nat} (hlow : low ≤ byte) (hhigh : byte ≤ high)
    (rest : List Nat) :
    ofUtf8From (some ⟨needed + 2, low, high, point⟩) (byte :: rest) =
      ofUtf8From (some ⟨needed + 1, 0x80, 0xbf, point * 0x40 + (byte - 0x80)⟩) rest := by
  simp [ofUtf8From, nextByte, hlow, hhigh]

/-- The last byte of a character. -/
theorem ofUtf8From_last {low high point byte : Nat} (hlow : low ≤ byte) (hhigh : byte ≤ high)
    (rest : List Nat) :
    ofUtf8From (some ⟨1, low, high, point⟩) (byte :: rest) =
      Char.ofNat (point * 0x40 + (byte - 0x80)) :: ofUtf8From none rest := by
  simp [ofUtf8From, nextByte, hlow, hhigh]

/-- Decoding undoes encoding, one character at a time. -/
theorem ofUtf8From_utf8 (c : Char) (rest : List Nat) :
    ofUtf8From none (utf8 c ++ rest) = c :: ofUtf8From none rest := by
  have hrange := toNat_range c
  have hchar : Char.ofNat c.toNat = c := Char.ofNat_toNat c
  unfold utf8
  generalize c.toNat = point at *
  subst hchar
  by_cases h1 : point < 0x80
  · simp [h1, ofUtf8From, firstByte]
  by_cases h2 : point < 0x800
  · have hfirst : firstByte (0xc0 + point / 0x40) = ([], some ⟨1, 0x80, 0xbf, point / 0x40⟩) := by
      rw [firstByte, if_neg (by omega), if_pos (by omega), Nat.add_sub_cancel_left]
    have hpoint : point / 0x40 * 0x40 + (0x80 + point % 0x40 - 0x80) = point := by omega
    simp only [h1, h2, if_false, if_true, List.cons_append, List.nil_append]
    rw [ofUtf8From_first hfirst, ofUtf8From_last (by omega) (by omega), hpoint]
  by_cases h3 : point < 0x10000
  · have hfirst : firstByte (0xe0 + point / 0x1000) = ([], some ⟨2,
        if 0xe0 + point / 0x1000 = 0xe0 then 0xa0 else 0x80,
        if 0xe0 + point / 0x1000 = 0xed then 0x9f else 0xbf, point / 0x1000⟩) := by
      rw [firstByte, if_neg (by omega), if_neg (by omega), if_pos (by omega),
        Nat.add_sub_cancel_left]
    have hpoint : (point / 0x1000 * 0x40 + (0x80 + point / 0x40 % 0x40 - 0x80)) * 0x40 +
        (0x80 + point % 0x40 - 0x80) = point := by omega
    simp only [h1, h2, h3, if_false, if_true, List.cons_append, List.nil_append]
    rw [ofUtf8From_first hfirst, ofUtf8From_more (by split <;> omega) (by split <;> omega),
      ofUtf8From_last (by omega) (by omega), hpoint]
  · have hfirst : firstByte (0xf0 + point / 0x40000) = ([], some ⟨3,
        if 0xf0 + point / 0x40000 = 0xf0 then 0x90 else 0x80,
        if 0xf0 + point / 0x40000 = 0xf4 then 0x8f else 0xbf, point / 0x40000⟩) := by
      rw [firstByte, if_neg (by omega), if_neg (by omega), if_neg (by omega), if_pos (by omega),
        Nat.add_sub_cancel_left]
    have hpoint : ((point / 0x40000 * 0x40 + (0x80 + point / 0x1000 % 0x40 - 0x80)) * 0x40 +
        (0x80 + point / 0x40 % 0x40 - 0x80)) * 0x40 + (0x80 + point % 0x40 - 0x80) = point := by
      omega
    simp only [h1, h2, h3, if_false, List.cons_append, List.nil_append]
    rw [ofUtf8From_first hfirst, ofUtf8From_more (by split <;> omega) (by split <;> omega),
      ofUtf8From_more (by omega) (by omega), ofUtf8From_last (by omega) (by omega), hpoint]

/-- A byte is a byte. -/
theorem utf8_lt (c : Char) : ∀ byte ∈ utf8 c, byte < 0x100 := by
  have hrange := toNat_range c
  intro byte hbyte
  unfold utf8 at hbyte
  generalize c.toNat = point at *
  dsimp only at hbyte
  split at hbyte
  · simp only [List.mem_singleton] at hbyte
    omega
  split at hbyte
  · simp only [List.mem_cons, List.not_mem_nil, or_false] at hbyte
    omega
  split at hbyte
  · simp only [List.mem_cons, List.not_mem_nil, or_false] at hbyte
    omega
  · simp only [List.mem_cons, List.not_mem_nil, or_false] at hbyte
    omega

/-- Decoding undoes encoding. -/
theorem ofUtf8_utf8 (cs : List Char) : ofUtf8 (cs.flatMap utf8) = cs := by
  induction cs with
  | nil => rfl
  | cons c cs ih =>
      rw [List.flatMap_cons, ofUtf8, ofUtf8From_utf8]
      exact congrArg (c :: ·) ih

end FoosballApi.Text
