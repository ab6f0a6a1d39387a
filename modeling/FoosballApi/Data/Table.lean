import Mathlib.Data.List.Nodup
import Mathlib.Data.List.Dedup

/-!
# Keyed tables

A `Table key` is a list of rows in which no two rows share a primary key: the constructor carries
the proof, so a table with a duplicate key cannot be built. `get` is the lookup by key, `put`
writes a row in place of the row with its key or appends it, and `keep` deletes the rows that
fail a condition.

The lemmas say what each operation does to a lookup, to membership and to the rows selected by
a condition (`sel`); later modules do not look inside `put` and `keep`.
-/

namespace FoosballApi.Data

/-- Rows with pairwise different keys. -/
structure Table {ρ κ : Type} (key : ρ → κ) where
  rows : List ρ
  nodup : (rows.map key).Nodup

namespace Table

variable {ρ κ : Type} {key : ρ → κ}

/-- A table is its list of rows. -/
@[ext] theorem ext {t s : Table key} (h : t.rows = s.rows) : t = s := by
  cases t; cases s; cases h; rfl

instance [DecidableEq ρ] : DecidableEq (Table key) := fun t s =>
  decidable_of_iff (t.rows = s.rows) ⟨ext, congrArg rows⟩

instance : Membership ρ (Table key) := ⟨fun t row => row ∈ t.rows⟩

theorem mem_def {t : Table key} {row : ρ} : row ∈ t ↔ row ∈ t.rows := Iff.rfl

/-- The table without rows. -/
def empty (key : ρ → κ) : Table key := ⟨[], List.nodup_nil⟩

/-- Two rows of a table with the same key are one row. -/
theorem eq_of_key {t : Table key} {row other : ρ} (h : row ∈ t) (ho : other ∈ t)
    (hkey : key row = key other) : row = other :=
  List.inj_on_of_nodup_map t.nodup h ho hkey

/-- The rows that satisfy a condition. -/
def sel (t : Table key) (p : ρ → Bool) : List ρ := t.rows.filter p

@[simp] theorem mem_sel {t : Table key} {p : ρ → Bool} {row : ρ} :
    row ∈ t.sel p ↔ row ∈ t ∧ p row = true := List.mem_filter

/-- No row is selected when every row fails the condition. -/
theorem sel_eq_nil {t : Table key} {p : ρ → Bool} (h : ∀ row ∈ t, p row = false) :
    t.sel p = [] := by
  simpa [sel, List.filter_eq_nil_iff, mem_def] using h

/-- Two conditions that agree on the rows select the same rows. -/
theorem sel_congr {t : Table key} {p q : ρ → Bool} (h : ∀ row ∈ t, p row = q row) :
    t.sel p = t.sel q := List.filter_congr h

/-- A weaker condition selects at least as many rows. -/
theorem length_sel_le {t : Table key} {p q : ρ → Bool}
    (h : ∀ row ∈ t, p row = true → q row = true) : (t.sel p).length ≤ (t.sel q).length := by
  rw [sel, sel, ← List.countP_eq_length_filter, ← List.countP_eq_length_filter]
  exact List.countP_mono_left h

/-- Selected rows still have different keys. -/
theorem sel_keys_nodup (t : Table key) (p : ρ → Bool) : ((t.sel p).map key).Nodup :=
  t.nodup.sublist (List.filter_sublist.map key)

/-- Keep the rows that satisfy a condition and delete the others. -/
def keep (t : Table key) (p : ρ → Bool) : Table key := ⟨t.sel p, t.sel_keys_nodup p⟩

@[simp] theorem mem_keep {t : Table key} {p : ρ → Bool} {row : ρ} :
    row ∈ t.keep p ↔ row ∈ t ∧ p row = true := mem_sel

/-- Nothing is deleted when every row satisfies the condition. -/
theorem keep_eq_self {t : Table key} {p : ρ → Bool} (h : ∀ row ∈ t, p row = true) :
    t.keep p = t := ext (List.filter_eq_self.mpr h)

@[simp] theorem sel_keep (t : Table key) (p q : ρ → Bool) :
    (t.keep p).sel q = t.sel fun row => q row && p row := by
  simp [keep, sel, List.filter_filter]

variable [DecidableEq κ]

/-- The row with a key. -/
def get (t : Table key) (k : κ) : Option ρ := t.rows.find? (key · = k)

/-- A lookup returns exactly the stored row with that key. -/
theorem get_eq_some {t : Table key} {k : κ} {row : ρ} :
    t.get k = some row ↔ row ∈ t ∧ key row = k := by
  constructor
  · intro h
    exact ⟨List.mem_of_find?_eq_some h, by simpa using List.find?_some h⟩
  · rintro ⟨hrow, rfl⟩
    have hsome : (t.get (key row)).isSome := List.find?_isSome.mpr ⟨row, hrow, by simp⟩
    obtain ⟨found, hfound⟩ := Option.isSome_iff_exists.mp hsome
    have hmem := List.mem_of_find?_eq_some hfound
    have hkey : key found = key row := by simpa using List.find?_some hfound
    rw [hfound, eq_of_key hmem hrow hkey]

/-- A lookup fails exactly when no row has the key. -/
theorem get_eq_none {t : Table key} {k : κ} : t.get k = none ↔ ∀ row ∈ t, key row ≠ k := by
  simp [get, List.find?_eq_none, mem_def]

theorem key_of_get {t : Table key} {k : κ} {row : ρ} (h : t.get k = some row) : key row = k :=
  (get_eq_some.mp h).2

theorem mem_of_get {t : Table key} {k : κ} {row : ρ} (h : t.get k = some row) : row ∈ t :=
  (get_eq_some.mp h).1

/-- The rows after writing `row`. -/
def putRows (key : ρ → κ) (row : ρ) : List ρ → List ρ
  | [] => [row]
  | first :: rest => if key first = key row then row :: rest else first :: putRows key row rest

/-- Writing a row leaves the keys as they were, or adds its key at the end. -/
theorem map_key_putRows (row : ρ) (rows : List ρ) :
    (putRows key row rows).map key =
      if key row ∈ rows.map key then rows.map key else rows.map key ++ [key row] := by
  induction rows with
  | nil => simp [putRows]
  | cons first rest ih =>
      by_cases hkey : key first = key row
      · simp [putRows, hkey]
      · simp only [putRows, hkey, ↓reduceIte, List.map_cons, ih, List.mem_cons]
        have hne : key row ≠ key first := fun h => hkey h.symm
        simp only [hne, false_or]
        split <;> simp

/-- Write a row: in place of the row with its key, or at the end. -/
def put (t : Table key) (row : ρ) : Table key where
  rows := putRows key row t.rows
  nodup := by
    rw [map_key_putRows]
    split
    · exact t.nodup
    · next h =>
        refine List.nodup_append.mpr ⟨t.nodup, by simp, ?_⟩
        rintro k hk _ hrow rfl
        rw [List.mem_singleton.mp hrow] at hk
        exact h hk

/-- Rows with another key are the same before and after a write. -/
theorem mem_putRows_of_ne {row other : ρ} {rows : List ρ} (hne : key other ≠ key row) :
    other ∈ putRows key row rows ↔ other ∈ rows := by
  induction rows with
  | nil =>
      have : other ≠ row := fun h => hne (congrArg key h)
      simp [putRows, this]
  | cons first rest ih =>
      by_cases hkey : key first = key row
      · have hrow : other ≠ row := fun h => hne (congrArg key h)
        have hfirst : other ≠ first := fun h => hne ((congrArg key h).trans hkey)
        simp [putRows, hkey, hrow, hfirst]
      · simp [putRows, hkey, ih]

theorem mem_putRows_self (row : ρ) (rows : List ρ) : row ∈ putRows key row rows := by
  induction rows with
  | nil => simp [putRows]
  | cons first rest ih =>
      by_cases hkey : key first = key row
      · simp [putRows, hkey]
      · simp [putRows, hkey, ih]

/-- After a write the table holds the row and the old rows with other keys. -/
theorem mem_put {t : Table key} {row other : ρ} :
    other ∈ t.put row ↔ other = row ∨ (other ∈ t ∧ key other ≠ key row) := by
  by_cases hkey : key other = key row
  · have hrow : row ∈ t.put row := mem_putRows_self row t.rows
    constructor
    · intro h
      exact .inl (eq_of_key h hrow hkey)
    · rintro (rfl | ⟨_, hne⟩)
      · exact hrow
      · exact absurd hkey hne
  · rw [mem_def, put, mem_putRows_of_ne hkey, ← mem_def]
    have : other ≠ row := fun h => hkey (congrArg key h)
    simp [this, hkey]

/-- The written row is found under its key. -/
@[simp] theorem get_put_self (t : Table key) (row : ρ) : (t.put row).get (key row) = some row :=
  get_eq_some.mpr ⟨mem_put.mpr (.inl rfl), rfl⟩

/-- Lookups of other keys are not affected by a write. -/
theorem get_put_of_ne (t : Table key) {row : ρ} {k : κ} (hne : k ≠ key row) :
    (t.put row).get k = t.get k := by
  refine Option.ext fun found => ?_
  simp only [get_eq_some, mem_put]
  constructor
  · rintro ⟨rfl | ⟨hmem, _⟩, hkey⟩
    · exact absurd hkey.symm hne
    · exact ⟨hmem, hkey⟩
  · rintro ⟨hmem, rfl⟩
    exact ⟨.inr ⟨hmem, hne⟩, rfl⟩

theorem get_put (t : Table key) (row : ρ) (k : κ) :
    (t.put row).get k = if k = key row then some row else t.get k := by
  split
  · next h => rw [h, get_put_self]
  · next h => exact get_put_of_ne t h

/-- A row whose key is new goes to the end. -/
theorem putRows_of_forall_ne {row : ρ} {rows : List ρ} (h : ∀ old ∈ rows, key old ≠ key row) :
    putRows key row rows = rows ++ [row] := by
  induction rows with
  | nil => rfl
  | cons first rest ih =>
      have hrest := ih fun old hold => h old (List.mem_cons_of_mem _ hold)
      simp [putRows, h first List.mem_cons_self, hrest]

/-- A condition that fails for the written row and for the row it replaces selects the same
rows. -/
theorem filter_putRows_of_false {row : ρ} {rows : List ρ} {p : ρ → Bool} (hrow : p row = false)
    (hold : ∀ old ∈ rows, key old = key row → p old = false) :
    (putRows key row rows).filter p = rows.filter p := by
  induction rows with
  | nil => simp [putRows, hrow]
  | cons first rest ih =>
      by_cases hkey : key first = key row
      · simp [putRows, hkey, hrow, hold first List.mem_cons_self hkey]
      · have hrest := ih fun old hmem => hold old (List.mem_cons_of_mem _ hmem)
        simp only [putRows, hkey, ↓reduceIte, List.filter_cons, hrest]

/-- Replacing a row keeps the number of rows that satisfy a condition which the rows with that
key satisfy exactly if the new row does. -/
theorem length_filter_putRows {row : ρ} {rows : List ρ} {p : ρ → Bool}
    (hmem : ∃ old ∈ rows, key old = key row)
    (hp : ∀ old ∈ rows, key old = key row → p old = p row) :
    ((putRows key row rows).filter p).length = (rows.filter p).length := by
  induction rows with
  | nil => simp at hmem
  | cons first rest ih =>
      by_cases hfirst : key first = key row
      · have hpf := hp first List.mem_cons_self hfirst
        simp only [putRows, hfirst, ↓reduceIte, List.filter_cons, hpf]
        split <;> rfl
      · have hrest : ∃ old ∈ rest, key old = key row := by
          obtain ⟨old, hold, hkey⟩ := hmem
          rcases List.mem_cons.mp hold with rfl | hold
          · exact absurd hkey hfirst
          · exact ⟨old, hold, hkey⟩
        have hlen := ih hrest fun old hold => hp old (List.mem_cons_of_mem _ hold)
        simp only [putRows, hfirst, ↓reduceIte, List.filter_cons]
        split <;> simp [hlen]

/-- Writing a row with a new key appends it. -/
theorem rows_put_of_get_none {t : Table key} {row : ρ} (h : t.get (key row) = none) :
    (t.put row).rows = t.rows ++ [row] :=
  putRows_of_forall_ne (get_eq_none.mp h)

/-- Writing a row with a new key adds it to the rows that satisfy a condition it satisfies. -/
theorem sel_put_of_get_none {t : Table key} {row : ρ} (h : t.get (key row) = none)
    (p : ρ → Bool) : (t.put row).sel p = t.sel p ++ if p row then [row] else [] := by
  rw [sel, rows_put_of_get_none h, List.filter_append]
  cases hp : p row <;> simp [sel, hp]

/-- A condition that fails for the written row and for the row it replaces selects the same
rows of the table. -/
theorem sel_put_of_false {t : Table key} {row : ρ} {p : ρ → Bool} (hrow : p row = false)
    (hold : ∀ old, t.get (key row) = some old → p old = false) :
    (t.put row).sel p = t.sel p :=
  filter_putRows_of_false hrow fun old hmem hkey => hold old (get_eq_some.mpr ⟨hmem, hkey⟩)

/-- Replacing a row keeps the number of selected rows when the old and the new row are both
selected or both not. -/
theorem length_sel_put_of_get_some {t : Table key} {row old : ρ} {p : ρ → Bool}
    (hget : t.get (key row) = some old) (hp : p old = p row) :
    ((t.put row).sel p).length = (t.sel p).length := by
  refine length_filter_putRows ⟨old, mem_of_get hget, key_of_get hget⟩ fun other hmem hkey => ?_
  rw [eq_of_key hmem (mem_of_get hget) (hkey.trans (key_of_get hget).symm), hp]

/-- The second of two rows written under one key replaces the first. -/
theorem put_put (t : Table key) {row later : ρ} (hkey : key row = key later) :
    (t.put row).put later = t.put later := by
  have hrows : ∀ rows, putRows key later (putRows key row rows) = putRows key later rows := by
    intro rows
    induction rows with
    | nil => simp [putRows, hkey]
    | cons first rest ih =>
        by_cases hfirst : key first = key later
        · simp [putRows, hkey, hfirst]
        · simp [putRows, hkey, hfirst, ih]
  exact ext (hrows t.rows)

/-- Deleting the rows with the key of a write undoes the write. -/
theorem keep_put_of_false {t : Table key} {row : ρ} {p : ρ → Bool} (hrow : p row = false)
    (hold : ∀ old, t.get (key row) = some old → p old = false) :
    (t.put row).keep p = t.keep p :=
  ext (sel_put_of_false hrow hold)

@[simp] theorem get_keep (t : Table key) (p : ρ → Bool) (k : κ) :
    (t.keep p).get k = (t.get k).filter p := by
  refine Option.ext fun row => ?_
  simp only [get_eq_some, mem_keep, Option.filter_eq_some_iff]
  tauto

/-! ## Writing several rows -/

/-- Write rows one after another. -/
def putAll (t : Table key) (rows : List ρ) : Table key := rows.foldl put t

@[simp] theorem putAll_nil (t : Table key) : t.putAll [] = t := rfl

@[simp] theorem putAll_cons (t : Table key) (row : ρ) (rows : List ρ) :
    t.putAll (row :: rows) = (t.put row).putAll rows := rfl

theorem putAll_append (t : Table key) (rows more : List ρ) :
    t.putAll (rows ++ more) = (t.putAll rows).putAll more := List.foldl_append ..

/-- A row of the result was stored before or is one of the written rows. -/
theorem mem_of_mem_putAll {t : Table key} {rows : List ρ} {row : ρ} (h : row ∈ t.putAll rows) :
    row ∈ t ∨ row ∈ rows := by
  induction rows generalizing t with
  | nil => exact .inl h
  | cons first rest ih =>
      rcases ih h with hput | hrest
      · rcases mem_put.mp hput with rfl | ⟨hold, _⟩
        · exact .inr List.mem_cons_self
        · exact .inl hold
      · exact .inr (List.mem_cons_of_mem _ hrest)

/-- A key that is stored stays stored. -/
theorem key_mem_put {t : Table key} {row old : ρ} (h : old ∈ t) :
    ∃ new ∈ t.put row, key new = key old := by
  by_cases hkey : key old = key row
  · exact ⟨row, mem_put.mpr (.inl rfl), hkey.symm⟩
  · exact ⟨old, mem_put.mpr (.inr ⟨h, hkey⟩), rfl⟩

theorem key_mem_putAll {t : Table key} {rows : List ρ} {old : ρ} (h : old ∈ t) :
    ∃ new ∈ t.putAll rows, key new = key old := by
  induction rows generalizing t old with
  | nil => exact ⟨old, h, rfl⟩
  | cons first rest ih =>
      obtain ⟨mid, hmid, hkey⟩ : ∃ mid ∈ t.put first, key mid = key old := key_mem_put h
      obtain ⟨new, hnew, hkey'⟩ := ih hmid
      exact ⟨new, hnew, hkey'.trans hkey⟩

/-- Some written row is stored: the last one. -/
theorem exists_mem_putAll (t : Table key) {rows : List ρ} (h : rows ≠ []) :
    ∃ row ∈ rows, row ∈ t.putAll rows := by
  obtain ⟨before, last, rfl⟩ := (List.eq_nil_or_concat' rows).resolve_left h
  refine ⟨last, List.mem_append_right _ List.mem_cons_self, ?_⟩
  rw [putAll_append]
  exact mem_put.mpr (.inl rfl)

/-- The key of every written row is stored. -/
theorem key_mem_putAll_of_mem {t : Table key} {rows : List ρ} {row : ρ} (h : row ∈ rows) :
    ∃ new ∈ t.putAll rows, key new = key row := by
  induction rows generalizing t with
  | nil => cases h
  | cons first rest ih =>
      rw [putAll_cons]
      rcases List.mem_cons.mp h with rfl | hrest
      · exact key_mem_putAll (mem_put.mpr (.inl rfl))
      · exact ih hrest

/-- A row of the result with the key of a written row is a written row. -/
theorem mem_of_key_mem_putAll {t : Table key} {rows : List ρ} {row : ρ} (h : row ∈ t.putAll rows)
    (hkey : key row ∈ rows.map key) : row ∈ rows := by
  induction rows generalizing t with
  | nil => cases hkey
  | cons first rest ih =>
      by_cases hrest : key row ∈ rest.map key
      · exact List.mem_cons_of_mem _ (ih h hrest)
      · have hfirst : key row = key first := (List.mem_cons.mp hkey).resolve_right hrest
        have hlast : row ∈ (t.put first).putAll rest := h
        rcases mem_of_mem_putAll hlast with hput | hmem
        · rcases mem_put.mp hput with rfl | ⟨_, hne⟩
          · exact List.mem_cons_self
          · exact absurd hfirst hne
        · exact List.mem_cons_of_mem _ hmem

/-- Rows with new and different keys are appended. -/
theorem rows_putAll_of_new {t : Table key} {rows : List ρ}
    (hnew : ∀ row ∈ rows, t.get (key row) = none) (hnodup : (rows.map key).Nodup) :
    (t.putAll rows).rows = t.rows ++ rows := by
  induction rows generalizing t with
  | nil => simp
  | cons first rest ih =>
      obtain ⟨hfirst, hrest⟩ := List.nodup_cons.mp hnodup
      have hput := rows_put_of_get_none (hnew first List.mem_cons_self)
      have hnew' : ∀ row ∈ rest, (t.put first).get (key row) = none := by
        intro row hrow
        have hne : key row ≠ key first := fun heq => hfirst (heq ▸ List.mem_map_of_mem hrow)
        rw [get_put_of_ne t hne]
        exact hnew row (List.mem_cons_of_mem _ hrow)
      rw [putAll_cons, ih hnew' hrest, hput, List.append_assoc, List.singleton_append]

/-- Written rows outside a condition do not change the rows it selects, when the condition
depends on the key only. -/
theorem sel_putAll_of_false {t : Table key} {rows : List ρ} {p : ρ → Bool}
    (hp : ∀ row other, key row = key other → p row = p other) (h : ∀ row ∈ rows, p row = false) :
    (t.putAll rows).sel p = t.sel p := by
  induction rows generalizing t with
  | nil => rfl
  | cons first rest ih =>
      have hfirst := h first List.mem_cons_self
      rw [putAll_cons, ih fun row hrow => h row (List.mem_cons_of_mem _ hrow)]
      refine sel_put_of_false hfirst fun old hold => ?_
      rw [hp old first (key_of_get hold), hfirst]

/-- One write adds at most one selected row. -/
theorem length_sel_put_le (t : Table key) (row : ρ) {p : ρ → Bool}
    (hp : ∀ row other, key row = key other → p row = p other) :
    ((t.put row).sel p).length ≤ (t.sel p).length + 1 := by
  cases hget : t.get (key row) with
  | none =>
      rw [sel_put_of_get_none hget, List.length_append]
      split <;> simp
  | some old =>
      rw [length_sel_put_of_get_some hget (hp old row (key_of_get hget))]
      omega

/-- A sequence of writes adds at most one selected row each. -/
theorem length_sel_putAll_le (t : Table key) (rows : List ρ) {p : ρ → Bool}
    (hp : ∀ row other, key row = key other → p row = p other) :
    ((t.putAll rows).sel p).length ≤ (t.sel p).length + rows.length := by
  induction rows generalizing t with
  | nil => simp
  | cons first rest ih =>
      have hfirst := length_sel_put_le t first hp
      have hrest := ih (t.put first)
      simp only [putAll_cons, List.length_cons]
      omega

/-- Writes never lower the number of selected rows. -/
theorem length_sel_le_putAll (t : Table key) (rows : List ρ) {p : ρ → Bool}
    (hp : ∀ row other, key row = key other → p row = p other) :
    (t.sel p).length ≤ ((t.putAll rows).sel p).length := by
  induction rows generalizing t with
  | nil => simp
  | cons first rest ih =>
      refine Nat.le_trans ?_ (ih (t.put first))
      cases hget : t.get (key first) with
      | none => rw [sel_put_of_get_none hget, List.length_append]; omega
      | some old =>
          have hsame := length_sel_put_of_get_some hget (hp old first (key_of_get hget))
          omega

/-! ## A part of a table

A condition on keys cuts a part out of a table. Lookups of its keys and writes of its rows depend on
this part only. -/

/-- The row with a key is found in any part that admits the key. -/
theorem get_eq_find_sel (t : Table key) {p : ρ → Bool} {k : κ} (hp : ∀ row, key row = k → p row) :
    t.get k = (t.sel p).find? (key · = k) := by
  rw [get, sel, List.find?_filter]
  congr 1
  funext row
  by_cases hkey : key row = k
  · simp [hkey, hp row hkey]
  · simp [hkey]

/-- Two tables with the same part have the same row under a key of this part. -/
theorem get_congr {t t' : Table key} {p : ρ → Bool} (h : t'.sel p = t.sel p) {k : κ}
    (hp : ∀ row, key row = k → p row) : t'.get k = t.get k := by
  rw [get_eq_find_sel t hp, get_eq_find_sel t' hp, h]

/-- A written row of a part replaces the row with its key there, or goes to its end. -/
theorem filter_putRows_of_true {row : ρ} {p : ρ → Bool}
    (hp : ∀ other, key other = key row → p other)
    (rows : List ρ) : (putRows key row rows).filter p = putRows key row (rows.filter p) := by
  have hrow : p row = true := hp row rfl
  induction rows with
  | nil => simp [putRows, hrow]
  | cons first rest ih =>
      by_cases hkey : key first = key row
      · simp [putRows, hkey, hrow, hp first hkey]
      · by_cases hfirst : p first = true
        · simp [putRows, hkey, hfirst, ih]
        · simp [putRows, hkey, hfirst, ih]

/-- Writing a row of a part leaves the same part in tables with the same part. -/
theorem sel_put_congr {t t' : Table key} {p : ρ → Bool} (h : t'.sel p = t.sel p) {row : ρ}
    (hp : ∀ other, key other = key row → p other) : (t'.put row).sel p = (t.put row).sel p := by
  rw [sel, sel, put, put, filter_putRows_of_true hp, filter_putRows_of_true hp]
  exact congrArg (putRows key row) h

theorem sel_putAll_congr {t t' : Table key} {p : ρ → Bool} (h : t'.sel p = t.sel p) {rows : List ρ}
    (hp : ∀ row ∈ rows, ∀ other, key other = key row → p other) :
    (t'.putAll rows).sel p = (t.putAll rows).sel p := by
  induction rows generalizing t t' with
  | nil => exact h
  | cons first rest ih =>
      exact ih (sel_put_congr h (hp first List.mem_cons_self)) fun row hrow =>
        hp row (List.mem_cons_of_mem _ hrow)

/-! ## The first row that satisfies a condition -/

/-- The first row that satisfies a condition. -/
def first (t : Table key) (p : ρ → Bool) : Option ρ := t.rows.find? p

omit [DecidableEq κ] in
theorem mem_of_first {t : Table key} {p : ρ → Bool} {row : ρ} (h : t.first p = some row) :
    row ∈ t := List.mem_of_find?_eq_some h

omit [DecidableEq κ] in
theorem holds_of_first {t : Table key} {p : ρ → Bool} {row : ρ} (h : t.first p = some row) :
    p row = true := by
  unfold first at h
  exact List.find?_some h

/-- Writing a row with a new key does not come before a row that was first. -/
theorem first_put_of_get_none {t : Table key} {row : ρ} (h : t.get (key row) = none)
    (p : ρ → Bool) : (t.put row).first p = (t.first p).or (if p row then some row else none) := by
  rw [first, rows_put_of_get_none h, List.find?_append, first]
  cases hp : p row <;> simp [hp]

/-- Change the rows that satisfy a condition, not their keys. -/
def modify (t : Table key) (p : ρ → Bool) (change : ρ → ρ)
    (hkey : ∀ row, key (change row) = key row) :
    Table key where
  rows := t.rows.map fun row => if p row then change row else row
  nodup := by
    have hkeys : (t.rows.map fun row => if p row then change row else row).map key =
        t.rows.map key := by
      rw [List.map_map]
      refine List.map_congr_left fun row _ => ?_
      show key (if p row then change row else row) = key row
      split
      · exact hkey row
      · rfl
    rw [hkeys]
    exact t.nodup

omit [DecidableEq κ] in
/-- The rows after a change are the rows before it, changed where the condition says so. -/
theorem mem_modify {t : Table key} {p : ρ → Bool} (change : ρ → ρ)
    (hkey : ∀ row, key (change row) = key row) {row : ρ} :
    row ∈ t.modify p change hkey ↔ ∃ old ∈ t, (if p old then change old else old) = row :=
  List.mem_map

omit [DecidableEq κ] in
/-- A condition that the change keeps has the same row first, changed. -/
theorem first_modify {t : Table key} {p q : ρ → Bool} (change : ρ → ρ)
    (hkey : ∀ row, key (change row) = key row) (hq : ∀ row, q (change row) = q row) :
    (t.modify p change hkey).first q =
      (t.first q).map fun row => if p row then change row else row := by
  rw [first, modify, List.find?_map, first]
  refine congrArg (Option.map _ ·) (congrArg (List.find? · t.rows) ?_)
  funext row
  show q (if p row then change row else row) = q row
  split
  · exact hq row
  · rfl

omit [DecidableEq κ] in
/-- A change that makes no row satisfy a condition selects at most as many rows. -/
theorem length_sel_modify_le {t : Table key} {p q : ρ → Bool} (change : ρ → ρ)
    (hkey : ∀ row, key (change row) = key row) (hq : ∀ row, q (change row) = true → q row = true) :
    ((t.modify p change hkey).sel q).length ≤ (t.sel q).length := by
  rw [sel, sel, ← List.countP_eq_length_filter, ← List.countP_eq_length_filter, modify,
    List.countP_map]
  refine List.countP_mono_left fun row _ hrow => ?_
  change q (if p row then change row else row) = true at hrow
  split at hrow
  · exact hq row hrow
  · exact hrow

/-- The row with a key, after a change. -/
theorem get_modify {t : Table key} {p : ρ → Bool} (change : ρ → ρ)
    (hkey : ∀ row, key (change row) = key row) (k : κ) :
    (t.modify p change hkey).get k =
      (t.get k).map fun row => if p row then change row else row :=
  first_modify change hkey fun row => by rw [hkey]

end Table

end FoosballApi.Data
