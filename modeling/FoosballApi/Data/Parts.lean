import Mathlib.Algebra.BigOperators.Group.Finset.Basic
import FoosballApi.Data.Table
import FoosballApi.Data.Tally

/-!
# Flattened selections of a table

A query that selects rows of a table and joins each with others returns, up to the order, the sum of
what the rows under the single keys contribute. Two tables whose keys contribute the same then
return the same rows, and a change under one key changes the rows by what this key contributes.
-/

namespace FoosballApi.Data

open Finset

variable {ρ κ α : Type} {key : ρ → κ} [DecidableEq κ]

/-- A flattened list is, up to the order, the sum of its parts. -/
theorem coe_flatMap (rows : List ρ) (f : ρ → List α) :
    ((rows.flatMap f : List α) : Multiset α) = (rows.map fun r => (f r : Multiset α)).sum := by
  induction rows with
  | nil => rfl
  | cons row rows ih => rw [List.flatMap_cons, ← Multiset.coe_add, ih, List.map_cons, List.sum_cons]

namespace Table

variable {t t' : Table key} {p p' : ρ → Bool} {f f' : ρ → List α}

/-- What the row under a key contributes, when it is selected. -/
def part (t : Table key) (p : ρ → Bool) (f : ρ → List α) (k : κ) : Multiset α :=
  (((t.get k).filter p).map fun row => (f row : Multiset α)).getD 0

/-- A selected row contributes what it is joined with. -/
theorem part_of_get {k : κ} {row : ρ} (hget : t.get k = some row) :
    t.part p f k = if p row then (f row : Multiset α) else 0 := by
  rw [part, hget, Option.filter_some]
  split <;> rfl

/-- A key without a row contributes nothing. -/
theorem part_of_get_none {k : κ} (hget : t.get k = none) : t.part p f k = 0 := by
  rw [part, hget]
  rfl

/-- The joined rows of a selection, up to the order, over any set of keys that covers the table. -/
theorem coe_flatMap_sel {S : Finset κ} (hS : ∀ row ∈ t, key row ∈ S) :
    (((t.sel p).flatMap f : List α) : Multiset α) = ∑ k ∈ S, t.part p f k := by
  have hrows : (((t.sel p).map fun row => (f row : Multiset α)) : List (Multiset α)).sum =
      (t.rows.map fun row => t.part p f (key row)).sum := by
    have hpart : ∀ row ∈ t.rows, t.part p f (key row) = if p row then (f row : Multiset α) else 0 :=
      fun row hrow => part_of_get (get_eq_some.mpr ⟨hrow, rfl⟩)
    rw [List.map_congr_left hpart, sel]
    induction t.rows with
    | nil => rfl
    | cons row rows ih => cases hp : p row <;> simp [hp, ih]
  have hkeys : (t.rows.map fun row => t.part p f (key row)) = (t.rows.map key).map (t.part p f) :=
    (List.map_map (f := key) (g := t.part p f)).symm
  rw [coe_flatMap, hrows, hkeys, ← List.sum_toFinset _ t.nodup]
  refine Finset.sum_subset (fun k hk => ?_) fun k _ hk => part_of_get_none ?_
  · obtain ⟨row, hrow, rfl⟩ := List.mem_map.mp (List.mem_toFinset.mp hk)
    exact hS row hrow
  · refine get_eq_none.mpr fun row hrow hkey => hk ?_
    exact List.mem_toFinset.mpr (List.mem_map.mpr ⟨row, hrow, hkey⟩)

/-- Two tables have their keys in a common set. -/
theorem exists_keys (t t' : Table key) :
    ∃ S : Finset κ, (∀ row ∈ t, key row ∈ S) ∧ ∀ row ∈ t', key row ∈ S := by
  refine ⟨((t.rows ++ t'.rows).map key).toFinset, fun row hrow => ?_, fun row hrow => ?_⟩
  · exact List.mem_toFinset.mpr (List.mem_map_of_mem (List.mem_append_left _ hrow))
  · exact List.mem_toFinset.mpr (List.mem_map_of_mem (List.mem_append_right _ hrow))

/-- When one key contributes `extra` more and all others the same, so does the selection. -/
theorem coe_flatMap_sel_add {k₀ : κ} {extra : Multiset α}
    (hsame : ∀ k, k ≠ k₀ → t'.part p' f' k = t.part p f k)
    (hextra : t'.part p' f' k₀ = t.part p f k₀ + extra) :
    (((t'.sel p').flatMap f' : List α) : Multiset α) = ((t.sel p).flatMap f : List α) + extra := by
  obtain ⟨S, hS, hS'⟩ := exists_keys t t'
  have hrest : ∑ k ∈ (insert k₀ S).erase k₀, t'.part p' f' k =
      ∑ k ∈ (insert k₀ S).erase k₀, t.part p f k :=
    sum_congr rfl fun k hk => hsame k (ne_of_mem_erase hk)
  rw [coe_flatMap_sel fun row hrow => mem_insert_of_mem (hS row hrow),
    coe_flatMap_sel fun row hrow => mem_insert_of_mem (hS' row hrow),
    ← add_sum_erase _ _ (mem_insert_self k₀ S), ← add_sum_erase _ _ (mem_insert_self k₀ S),
    hrest, hextra]
  exact add_right_comm _ _ _

/-- Tables whose keys contribute the same return the same rows. -/
theorem flatMap_sel_perm (hsame : ∀ k, t'.part p' f' k = t.part p f k) :
    ((t'.sel p').flatMap f').Perm ((t.sel p).flatMap f) := by
  obtain ⟨S, hS, hS'⟩ := exists_keys t t'
  rw [← Multiset.coe_eq_coe, coe_flatMap_sel hS, coe_flatMap_sel hS']
  exact sum_congr rfl fun k _ => hsame k

end Table

/-! ## Tallies of the same keys -/

variable {keys keys' extra : List κ}

theorem count_eq_of_mem_tally {k : κ} {n : Nat} (h : (k, n) ∈ tally keys) : keys.count k = n :=
  (mem_tally.mp h).2.symm

/-- Two tallies have the same entries exactly when they count the same keys. -/
theorem tally_perm_iff : (tally keys').Perm (tally keys) ↔ keys'.Perm keys := by
  constructor
  · intro hperm
    refine List.perm_iff_count.mpr fun k => ?_
    have hmem : ∀ n, (k, n) ∈ tally keys' ↔ (k, n) ∈ tally keys := fun n => hperm.mem_iff
    by_cases hk : k ∈ keys'
    · exact (count_eq_of_mem_tally ((hmem _).mp (mem_tally.mpr ⟨hk, rfl⟩))).symm
    · have hk' : k ∉ keys := fun hk' =>
        hk (mem_tally.mp ((hmem _).mpr (mem_tally.mpr ⟨hk', rfl⟩))).1
      rw [List.count_eq_zero_of_not_mem hk, List.count_eq_zero_of_not_mem hk']
  · intro hperm
    refine (List.perm_ext_iff_of_nodup (.of_map _ (tally_keys_nodup _))
      (.of_map _ (tally_keys_nodup _))).mpr fun entry => ?_
    rw [mem_tally (k := entry.1) (n := entry.2), mem_tally, hperm.mem_iff, hperm.count_eq]

/-- One more for each of some keys: their entries are raised, and the new ones start at one. -/
def credit (extra : List κ) (entries : List (κ × Nat)) : List (κ × Nat) :=
  entries.map (fun entry => if entry.1 ∈ extra then (entry.1, entry.2 + 1) else entry) ++
    (extra.filter (· ∉ entries.map Prod.fst)).map fun k => (k, 1)

/-- An entry after crediting is raised, left as it was, or new. -/
theorem mem_credit {entries : List (κ × Nat)} {k : κ} {n : Nat} :
    (k, n) ∈ credit extra entries ↔
      (∃ m, (k, m) ∈ entries ∧ n = if k ∈ extra then m + 1 else m) ∨
        k ∈ extra ∧ k ∉ entries.map Prod.fst ∧ n = 1 := by
  have hraised : (k, n) ∈ entries.map (fun entry => if entry.1 ∈ extra then
      (entry.1, entry.2 + 1) else entry) ↔
      ∃ m, (k, m) ∈ entries ∧ n = if k ∈ extra then m + 1 else m := by
    simp only [List.mem_map, Prod.exists]
    constructor
    · rintro ⟨k', m, hmem, heq⟩
      split at heq <;> cases heq
      · next hk => exact ⟨m, hmem, by rw [if_pos hk]⟩
      · next hk => exact ⟨n, hmem, by rw [if_neg hk]⟩
    · rintro ⟨m, hmem, rfl⟩
      exact ⟨k, m, hmem, by split <;> rfl⟩
  rw [credit, List.mem_append, hraised]
  simp only [List.mem_map, List.mem_filter, decide_eq_true_eq, Prod.mk.injEq]
  refine or_congr_right ⟨?_, fun ⟨hk, hnew, hn⟩ => ⟨k, ⟨hk, hnew⟩, rfl, hn.symm⟩⟩
  rintro ⟨k', ⟨hk, hnew⟩, rfl, rfl⟩
  exact ⟨hk, hnew, rfl⟩

/-- Crediting keeps the keys of the entries and adds new ones. -/
theorem map_fst_credit (extra : List κ) (entries : List (κ × Nat)) :
    (credit extra entries).map Prod.fst =
      entries.map Prod.fst ++ extra.filter (· ∉ entries.map Prod.fst) := by
  rw [credit, List.map_append, List.map_map, List.map_map]
  congr 1
  · refine List.map_congr_left fun entry _ => ?_
    simp only [Function.comp_apply]
    split <;> rfl
  · exact List.map_id _

/-- Counting some more keys, each once, credits them. -/
theorem tally_append (hextra : extra.Nodup) :
    (tally (keys ++ extra)).Perm (credit extra (tally keys)) := by
  have hkeys : ((credit extra (tally keys)).map Prod.fst).Nodup := by
    rw [map_fst_credit]
    refine (tally_keys_nodup keys).append (hextra.filter _) fun k hk hk' => ?_
    exact of_decide_eq_true (List.mem_filter.mp hk').2 hk
  refine (List.perm_ext_iff_of_nodup (.of_map _ (tally_keys_nodup _)) (.of_map _ hkeys)).mpr ?_
  rintro ⟨k, n⟩
  have hcount : (keys ++ extra).count k = keys.count k + if k ∈ extra then 1 else 0 := by
    rw [List.count_append, hextra.count]
  have hkey : k ∈ (tally keys).map Prod.fst ↔ k ∈ keys := by
    simp [List.mem_map, mem_tally]
  rw [mem_tally, mem_credit, hcount, hkey, List.mem_append]
  simp only [mem_tally]
  by_cases hk : k ∈ keys <;> by_cases hk' : k ∈ extra
  all_goals simp [hk, hk', List.count_eq_zero_of_not_mem]

end FoosballApi.Data
