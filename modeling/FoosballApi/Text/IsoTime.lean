import Mathlib.Logic.Basic

/-!
# Times as `toISOString` writes them

A `Date` is a number of milliseconds since 1970; its fields are those of the proleptic Gregorian
calendar. `DateTime.ofMs` finds the fields of a number and `DateTime.ms` is the number that fields
stand for, in whatever zone the clock that shows them is. `DateTime.ofText?` reads the text again.
-/

namespace FoosballApi.Text

/-! ## Decimal numerals -/

/-- The number that digits stand for. -/
def decimal? (digits : List Char) : Option Nat :=
  if digits ≠ [] ∧ digits.all Char.isDigit then some (Nat.ofDigitChars 10 digits 0) else none

/-- The integer that digits stand for, with a sign or without. -/
def signedDecimal? : List Char → Option Int
  | '-' :: digits => (decimal? digits).map fun value => -(value : Int)
  | digits => (decimal? digits).map fun value => (value : Int)

/-- The digits of a number, with as many zeros before them as a width needs. -/
def padded (width value : Nat) : List Char :=
  let digits := Nat.toDigits 10 value
  List.replicate (width - digits.length) '0' ++ digits

/-- The digits of a number stand for it. -/
theorem decimal?_toDigits (value : Nat) : decimal? (Nat.toDigits 10 value) = some value := by
  have hdigits : (Nat.toDigits 10 value).all Char.isDigit := List.all_eq_true.mpr fun c hc =>
    Nat.isDigit_of_mem_toDigits (by decide) (by decide) hc
  rw [decimal?, if_pos ⟨Nat.toDigits_ne_nil, hdigits⟩, Nat.ofDigitChars_toDigits]
  all_goals decide

theorem signedDecimal?_toDigits (value : Nat) :
    signedDecimal? (Nat.toDigits 10 value) = some (value : Int) := by
  have hdigits : ∀ c ∈ Nat.toDigits 10 value, c.isDigit := fun c hc =>
    Nat.isDigit_of_mem_toDigits (by decide) (by decide) hc
  unfold signedDecimal?
  split
  · next digits hsign =>
      have hminus := hdigits '-' (by rw [hsign]; simp)
      exact absurd hminus (by decide)
  · rw [decimal?_toDigits]
    rfl

/-- The numbers in a text, whatever separates their digits. -/
def numerals (text : List Char) : List Nat :=
  (text.splitOnP fun c => !c.isDigit).filterMap decimal?

theorem isDigit_of_mem_padded {width value : Nat} {c : Char} (hc : c ∈ padded width value) :
    c.isDigit = true := by
  rcases List.mem_append.mp hc with hzero | hdigit
  · rw [List.eq_of_mem_replicate hzero]
    rfl
  · exact Nat.isDigit_of_mem_toDigits (by decide) (by decide) hdigit

/-- Zeros before the digits of a number do not change it. -/
theorem decimal?_padded (width value : Nat) : decimal? (padded width value) = some value := by
  have hne : padded width value ≠ [] := List.append_ne_nil_of_right_ne_nil _ Nat.toDigits_ne_nil
  have hdigits : (padded width value).all Char.isDigit :=
    List.all_eq_true.mpr fun _ => isDigit_of_mem_padded
  rw [decimal?, if_pos ⟨hne, hdigits⟩, padded, Nat.ofDigitChars_append,
    Nat.ofDigitChars_replicate_zero, Nat.mul_zero, Nat.ofDigitChars_ten_toDigits]

/-- A number ends where something else than a digit follows. -/
theorem numerals_padded {sep : Char} (hsep : sep.isDigit = false) (width value : Nat)
    (rest : List Char) :
    numerals (padded width value ++ sep :: rest) = value :: numerals rest := by
  have hdigits : ∀ c ∈ padded width value, (!c.isDigit) = false := fun c hc => by
    rw [isDigit_of_mem_padded hc]
    rfl
  rw [numerals, List.splitOnP_append_cons_of_forall_mem hdigits sep (by rw [hsep]; rfl),
    List.filterMap_cons_some (decimal?_padded width value), numerals]

/-- What is no digit is in no number. -/
theorem numerals_cons {sep : Char} (hsep : sep.isDigit = false) (rest : List Char) :
    numerals (sep :: rest) = numerals rest := by
  have hempty : ∀ c ∈ ([] : List Char), (!c.isDigit) = false :=
    fun c hc => absurd hc List.not_mem_nil
  have hsplit := List.splitOnP_append_cons_of_forall_mem hempty sep (by rw [hsep]; rfl) rest
  rw [numerals, ← List.nil_append (sep :: rest), hsplit, List.filterMap_cons_none rfl, numerals]

/-! ## The calendar -/

/-- A year with a 29th of February. -/
def inLeapYear (year : Int) : Bool := year % 4 = 0 ∧ (year % 100 ≠ 0 ∨ year % 400 = 0)

/-- The first day of a year, in days since 1970. -/
def dayFromYear (year : Int) : Int :=
  365 * (year - 1970) + (year - 1969) / 4 - (year - 1901) / 100 + (year - 1601) / 400

/-- The year of a day. The average length of a year gives a year that is at most one off. -/
def yearFromDay (day : Int) : Int :=
  let year := 1970 + 400 * day / 146097
  if day < dayFromYear year then year - 1
  else if day < dayFromYear (year + 1) then year
  else year + 1

/-- The day of a year on which a month begins; month 13 begins the next year. -/
def dayFromMonth (leap : Bool) (month : Nat) : Nat :=
  let day := [0, 31, 59, 90, 120, 151, 181, 212, 243, 273, 304, 334, 365].getD (month - 1) 0
  if leap ∧ 2 < month then day + 1 else day

/-- The latest month that begins on a day or before, of January and so many months after it. -/
def monthUpTo (leap : Bool) (day : Nat) : Nat → Nat
  | 0 => 1
  | months + 1 =>
      if dayFromMonth leap (months + 2) ≤ day then months + 2 else monthUpTo leap day months

theorem dayFromYear_succ (year : Int) :
    dayFromYear (year + 1) = dayFromYear year + if inLeapYear year then 366 else 365 := by
  unfold dayFromYear
  by_cases hleap : inLeapYear year
  · rw [if_pos hleap]
    simp only [inLeapYear, decide_eq_true_eq] at hleap
    omega
  · rw [if_neg hleap]
    simp only [inLeapYear, decide_eq_true_eq] at hleap
    omega

/-- Years begin near the multiples of their average length. -/
theorem dayFromYear_bounds (year : Int) :
    146097 * (year - 1970) - 506 ≤ 400 * dayFromYear year ∧
      400 * dayFromYear year ≤ 146097 * (year - 1970) + 589 := by
  unfold dayFromYear
  omega

/-- A day belongs to its year. -/
theorem yearFromDay_spec (day : Int) :
    dayFromYear (yearFromDay day) ≤ day ∧ day < dayFromYear (yearFromDay day + 1) := by
  unfold yearFromDay
  dsimp only
  generalize hyear : 1970 + 400 * day / 146097 = year
  split
  · next hbefore =>
      have hbounds := dayFromYear_bounds (year - 1)
      rw [Int.sub_add_cancel]
      exact ⟨by omega, hbefore⟩
  · split
    · next hstarted hends => exact ⟨by omega, hends⟩
    · next hstarted hnext =>
        have hbounds := dayFromYear_bounds (year + 1 + 1)
        exact ⟨by omega, by omega⟩

/-- A day belongs to its month, unless it is after the last one considered. -/
theorem monthUpTo_spec (leap : Bool) (day months : Nat) :
    (1 ≤ monthUpTo leap day months ∧ monthUpTo leap day months ≤ months + 1) ∧
      dayFromMonth leap (monthUpTo leap day months) ≤ day ∧
      (day < dayFromMonth leap (months + 2) →
        day < dayFromMonth leap (monthUpTo leap day months + 1)) := by
  induction months with
  | zero =>
      have hfirst : dayFromMonth leap 1 = 0 := by cases leap <;> rfl
      show (1 ≤ 1 ∧ 1 ≤ 1) ∧ dayFromMonth leap 1 ≤ day ∧ _
      rw [hfirst]
      exact ⟨⟨Nat.le_refl 1, Nat.le_refl 1⟩, Nat.zero_le day, id⟩
  | succ months ih =>
      rw [monthUpTo]
      split
      · next hbegun => exact ⟨⟨by omega, Nat.le_refl _⟩, hbegun, id⟩
      · next hlater =>
          obtain ⟨⟨hfirst, hlast⟩, hbegun, hends⟩ := ih
          exact ⟨⟨hfirst, by omega⟩, hbegun, fun _ => hends (by omega)⟩

/-! ## Date and time -/

/-- The fields of a clock. -/
structure DateTime where
  year : Int
  month : Nat
  day : Nat
  hour : Nat
  minute : Nat
  second : Nat
  millisecond : Nat
  month_range : 1 ≤ month ∧ month ≤ 12
  day_range : 1 ≤ day ∧ dayFromMonth (inLeapYear year) month + day ≤
    dayFromMonth (inLeapYear year) (month + 1)
  hour_lt : hour < 24
  minute_lt : minute < 60
  second_lt : second < 60
  millisecond_lt : millisecond < 1000

namespace DateTime

/-- The milliseconds since 1970 that a clock shows. -/
def ms (clock : DateTime) : Int :=
  let day := dayFromYear clock.year + dayFromMonth (inLeapYear clock.year) clock.month +
    clock.day - 1
  day * 86400000 + clock.hour * 3600000 + clock.minute * 60000 + clock.second * 1000 +
    clock.millisecond

/-- The day of its year on which a day is. -/
def dayWithinYear (day : Int) : Nat := (day - dayFromYear (yearFromDay day)).toNat

/-- The month of a day. -/
def monthFromDay (day : Int) : Nat :=
  monthUpTo (inLeapYear (yearFromDay day)) (dayWithinYear day) 11

/-- The day of its month on which a day is. -/
def dateFromDay (day : Int) : Nat :=
  dayWithinYear day - dayFromMonth (inLeapYear (yearFromDay day)) (monthFromDay day) + 1

theorem monthFromDay_range (day : Int) : 1 ≤ monthFromDay day ∧ monthFromDay day ≤ 12 :=
  (monthUpTo_spec _ _ _).1

theorem dateFromDay_range (day : Int) :
    1 ≤ dateFromDay day ∧
      dayFromMonth (inLeapYear (yearFromDay day)) (monthFromDay day) + dateFromDay day ≤
        dayFromMonth (inLeapYear (yearFromDay day)) (monthFromDay day + 1) := by
  obtain ⟨hstarted, hends⟩ := yearFromDay_spec day
  rw [dayFromYear_succ] at hends
  have hlength : dayFromMonth (inLeapYear (yearFromDay day)) 13 =
      if inLeapYear (yearFromDay day) then 366 else 365 := by
    cases inLeapYear (yearFromDay day) <;> rfl
  have hwithin : dayWithinYear day < dayFromMonth (inLeapYear (yearFromDay day)) 13 := by
    rw [hlength, dayWithinYear]
    split at hends <;> simp only [*, if_true, Bool.false_eq_true, if_false] <;> omega
  obtain ⟨-, hbegun, hmonth⟩ :=
    monthUpTo_spec (inLeapYear (yearFromDay day)) (dayWithinYear day) 11
  have hnext := hmonth hwithin
  rw [dateFromDay, monthFromDay]
  omega

/-- The milliseconds of its day at which a time is. -/
def timeWithinDay (t : Int) : Nat := (t % 86400000).toNat

theorem hour_of_lt (t : Int) : timeWithinDay t / 3600000 < 24 := by
  unfold timeWithinDay
  omega

/-- The fields of a number of milliseconds since 1970. -/
def ofMs (t : Int) : DateTime :=
  let day := t / 86400000
  let time := timeWithinDay t
  { year := yearFromDay day
    month := monthFromDay day
    day := dateFromDay day
    hour := time / 3600000
    minute := time / 60000 % 60
    second := time / 1000 % 60
    millisecond := time % 1000
    month_range := monthFromDay_range day
    day_range := dateFromDay_range day
    hour_lt := hour_of_lt t
    minute_lt := Nat.mod_lt _ (Nat.zero_lt_succ _)
    second_lt := Nat.mod_lt _ (Nat.zero_lt_succ _)
    millisecond_lt := Nat.mod_lt _ (Nat.zero_lt_succ _) }

/-- The fields of a number stand for it. -/
theorem ms_ofMs (t : Int) : (ofMs t).ms = t := by
  obtain ⟨hstarted, -⟩ := yearFromDay_spec (t / 86400000)
  obtain ⟨-, hbegun, -⟩ := monthUpTo_spec (inLeapYear (yearFromDay (t / 86400000)))
    (dayWithinYear (t / 86400000)) 11
  have hwithin : (dayWithinYear (t / 86400000) : Int) =
      t / 86400000 - dayFromYear (yearFromDay (t / 86400000)) := Int.toNat_of_nonneg (by omega)
  have hday : dayFromYear (yearFromDay (t / 86400000)) +
      dayFromMonth (inLeapYear (yearFromDay (t / 86400000))) (monthFromDay (t / 86400000)) +
      dateFromDay (t / 86400000) - 1 = t / 86400000 := by
    rw [dateFromDay, monthFromDay]
    omega
  have htime : (timeWithinDay t : Int) = t % 86400000 := Int.toNat_of_nonneg (by omega)
  simp only [ms, ofMs, hday]
  omega

/-- `toISOString()`. A year outside 0 to 9999 has a sign and six digits. -/
def toISOString (clock : DateTime) : String :=
  let year := if 0 ≤ clock.year ∧ clock.year ≤ 9999 then padded 4 clock.year.toNat
    else (if clock.year < 0 then '-' else '+') :: padded 6 clock.year.natAbs
  .ofList (year ++ '-' :: padded 2 clock.month ++ '-' :: padded 2 clock.day ++
    'T' :: padded 2 clock.hour ++ ':' :: padded 2 clock.minute ++ ':' :: padded 2 clock.second ++
    '.' :: padded 3 clock.millisecond ++ ['Z'])

example : (ofMs 1709251199999).toISOString = "2024-02-29T23:59:59.999Z" := by decide

/-! ## Reading the text -/

/-- The clock with some fields, if there is one. -/
def ofFields? (year : Int) (month day hour minute second millisecond : Nat) : Option DateTime :=
  if h : (1 ≤ month ∧ month ≤ 12) ∧
      (1 ≤ day ∧ dayFromMonth (inLeapYear year) month + day ≤
        dayFromMonth (inLeapYear year) (month + 1)) ∧
      hour < 24 ∧ minute < 60 ∧ second < 60 ∧ millisecond < 1000 then
    some
      { year, month, day, hour, minute, second, millisecond
        month_range := h.1
        day_range := h.2.1
        hour_lt := h.2.2.1
        minute_lt := h.2.2.2.1
        second_lt := h.2.2.2.2.1
        millisecond_lt := h.2.2.2.2.2 }
  else none

/-- The clock that a text spells with seven numbers, of which a minus makes the year negative. -/
def ofText? (text : List Char) : Option DateTime :=
  match numerals text with
  | [year, month, day, hour, minute, second, millisecond] =>
      ofFields? (if text.head? = some '-' then -(year : Int) else year) month day hour minute second
        millisecond
  | _ => none

theorem ofFields?_self (clock : DateTime) :
    ofFields? clock.year clock.month clock.day clock.hour clock.minute clock.second
      clock.millisecond = some clock :=
  dif_pos ⟨clock.month_range, clock.day_range, clock.hour_lt, clock.minute_lt, clock.second_lt,
    clock.millisecond_lt⟩

theorem head?_padded_ne (width value : Nat) (rest : List Char) :
    (padded width value ++ rest).head? ≠ some '-' := by
  cases hdigits : padded width value with
  | nil => exact absurd hdigits (List.append_ne_nil_of_right_ne_nil _ Nat.toDigits_ne_nil)
  | cons c digits =>
      intro hminus
      have hdigit : c.isDigit = true :=
        isDigit_of_mem_padded (by rw [hdigits]; exact List.mem_cons_self)
      rw [Option.some.inj hminus] at hdigit
      cases hdigit

/-- What `toISOString` writes spells the clock. -/
theorem ofText?_toISOString (clock : DateTime) :
    ofText? clock.toISOString.toList = some clock := by
  let rest := padded 2 clock.month ++ '-' :: (padded 2 clock.day ++
    'T' :: (padded 2 clock.hour ++ ':' :: (padded 2 clock.minute ++
      ':' :: (padded 2 clock.second ++ '.' :: (padded 3 clock.millisecond ++ ['Z'])))))
  have hfields : ∀ width year, numerals (padded width year ++ '-' :: rest) =
      [year, clock.month, clock.day, clock.hour, clock.minute, clock.second,
        clock.millisecond] := by
    intro width year
    simp (disch := decide) only [rest, numerals_padded]
    rfl
  have hwritten : clock.toISOString.toList =
      (if 0 ≤ clock.year ∧ clock.year ≤ 9999 then padded 4 clock.year.toNat
        else (if clock.year < 0 then '-' else '+') :: padded 6 clock.year.natAbs) ++
          '-' :: rest := by
    rw [toISOString, String.toList_ofList]
    simp only [rest, List.append_assoc, List.cons_append]
  rw [hwritten, ofText?]
  by_cases hfour : 0 ≤ clock.year ∧ clock.year ≤ 9999
  · rw [if_pos hfour, hfields]
    dsimp only
    rw [if_neg (head?_padded_ne 4 clock.year.toNat _), Int.toNat_of_nonneg hfour.1]
    exact ofFields?_self clock
  rw [if_neg hfour]
  by_cases hnegative : clock.year < 0
  · rw [if_pos hnegative, List.cons_append, numerals_cons rfl, hfields]
    dsimp only
    rw [List.head?_cons, if_pos rfl, Int.ofNat_natAbs_of_nonpos (Int.le_of_lt hnegative),
      Int.neg_neg]
    exact ofFields?_self clock
  · rw [if_neg hnegative, List.cons_append, numerals_cons rfl, hfields]
    dsimp only
    rw [List.head?_cons, if_neg (by decide), Int.natAbs_of_nonneg (by omega)]
    exact ofFields?_self clock

end DateTime

end FoosballApi.Text
