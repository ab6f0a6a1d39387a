import Mathlib.Algebra.BigOperators.Group.List.Lemmas
import Mathlib.Algebra.GroupWithZero.Nat
import Mathlib.Data.List.Count
import Mathlib.Data.List.Dedup
import Mathlib.Data.List.Sort

/-!
# Grouped counts

`tally keys` is `SELECT key, COUNT(*) … GROUP BY key ORDER BY COUNT(*) DESC` over the keys of the
selected rows: every key once, with the number of its rows, most frequent first. Which of two keys
with the same count comes first is open in SQL; here the sort is stable.
-/

namespace FoosballApi.Data

variable {κ : Type} [DecidableEq κ]

/-- Every key once, with the number of its rows. -/
def groupCount (keys : List κ) : List (κ × Nat) := keys.dedup.map fun k => (k, keys.count k)

/-- Every key once, with the number of its rows, most frequent first. -/
def tally (keys : List κ) : List (κ × Nat) := (groupCount keys).insertionSort (·.2 ≥ ·.2)

variable {keys : List κ} {k : κ} {n : Nat}

theorem mem_tally : (k, n) ∈ tally keys ↔ k ∈ keys ∧ n = keys.count k := by
  simp only [tally, groupCount, List.mem_insertionSort, List.mem_map, List.mem_dedup,
    Prod.mk.injEq]
  constructor
  · rintro ⟨k, hk, rfl, rfl⟩
    exact ⟨hk, rfl⟩
  · rintro ⟨hk, rfl⟩
    exact ⟨k, hk, rfl, rfl⟩

theorem map_fst_groupCount (keys : List κ) : (groupCount keys).map Prod.fst = keys.dedup := by
  simp [groupCount, Function.comp_def]

/-- No key has two entries. -/
theorem tally_keys_nodup (keys : List κ) : ((tally keys).map Prod.fst).Nodup := by
  have hperm := (List.perm_insertionSort (fun a b : κ × Nat => a.2 ≥ b.2) (groupCount keys)).map
    Prod.fst
  rw [map_fst_groupCount] at hperm
  exact hperm.nodup_iff.mpr keys.nodup_dedup

/-- The most frequent keys come first. -/
theorem tally_pairwise (keys : List κ) : (tally keys).Pairwise fun a b => a.2 ≥ b.2 := by
  have htotal : Std.Total fun a b : κ × Nat => a.2 ≥ b.2 := ⟨fun a b => Nat.le_total b.2 a.2⟩
  have htrans : IsTrans (κ × Nat) fun a b => a.2 ≥ b.2 := ⟨fun _ _ _ h h' => Nat.le_trans h' h⟩
  exact List.pairwise_insertionSort _ _

/-- The counts of the keys that satisfy a condition add up to the number of their rows. -/
theorem sum_filter_tally (keys : List κ) (p : κ → Bool) :
    (((tally keys).filter fun entry => p entry.1).map Prod.snd).sum = keys.countP p := by
  have hperm : ((tally keys).filter fun entry => p entry.1).Perm
      ((groupCount keys).filter fun entry => p entry.1) :=
    (List.perm_insertionSort _ _).filter _
  have hgroups : ((groupCount keys).filter fun entry => p entry.1).map Prod.snd =
      (keys.dedup.filter p).map fun k => keys.count k := by
    simp [groupCount, List.filter_map, Function.comp_def]
  rw [(hperm.map Prod.snd).sum_eq, hgroups]
  exact List.sum_map_count_dedup_filter_eq_countP p keys

/-- The counts add up to the number of rows. -/
theorem sum_tally (keys : List κ) : ((tally keys).map Prod.snd).sum = keys.length := by
  have hall := sum_filter_tally keys fun _ => true
  simpa using hall

/-! ## The keys of joined rows -/

variable {ρ : Type} {rows : List ρ} {f : ρ → List κ}

/-- When no row is joined with a key twice, a key is counted once for each row it is joined with. -/
theorem count_flatMap_of_nodup (h : ∀ row ∈ rows, (f row).Nodup) {p : ρ → Bool}
    (hp : ∀ row ∈ rows, p row = true ↔ k ∈ f row) :
    (rows.flatMap f).count k = (rows.filter p).length := by
  induction rows with
  | nil => rfl
  | cons row rows ih =>
      have hrest := ih (fun other hother => h other (List.mem_cons_of_mem _ hother))
        fun other hother => hp other (List.mem_cons_of_mem _ hother)
      have hrow := (h row List.mem_cons_self).count (a := k)
      rw [List.flatMap_cons, List.count_append, hrest, hrow, List.filter_cons]
      have hiff := hp row List.mem_cons_self
      by_cases hk : k ∈ f row
      · rw [if_pos hk, if_pos (hiff.mpr hk), List.length_cons, Nat.add_comm]
      · rw [if_neg hk, if_neg fun hrow => hk (hiff.mp hrow), Nat.zero_add]

/-- A tally of joined rows counts for each key the rows it is joined with. -/
theorem mem_tally_flatMap (h : ∀ row ∈ rows, (f row).Nodup) {p : ρ → Bool}
    (hp : ∀ row ∈ rows, p row = true ↔ k ∈ f row) :
    (k, n) ∈ tally (rows.flatMap f) ↔ 0 < n ∧ n = (rows.filter p).length := by
  rw [mem_tally, ← List.count_pos_iff, count_flatMap_of_nodup h hp]
  constructor
  · rintro ⟨hpos, rfl⟩
    exact ⟨hpos, rfl⟩
  · rintro ⟨hpos, rfl⟩
    exact ⟨hpos, rfl⟩

/-- Rows that contribute nothing may be left out of a sum. -/
theorem sum_map_ite (rows : List ρ) (p : ρ → Bool) (share : ρ → Nat) :
    (rows.map fun row => if p row then share row else 0).sum =
      ((rows.filter p).map share).sum := by
  induction rows with
  | nil => rfl
  | cons row rows ih => cases hp : p row <;> simp [hp, ih]

end FoosballApi.Data
