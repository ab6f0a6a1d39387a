import Mathlib.Data.List.Nodup
import Mathlib.Data.Nat.Choose.Basic
import Mathlib.Order.Lattice

/-!
# The pairs of a list

`orderedPairs xs` is the self-join of a list with the condition that the second element is greater:
of a list without repetitions it has every pair of elements once, the smaller element first.
-/

namespace FoosballApi.Data

variable {α : Type} [LinearOrder α] {xs : List α} {a b x : α}

/-- Every element with every greater one. -/
def orderedPairs (xs : List α) : List (α × α) :=
  xs.flatMap fun a => (xs.filter (a < ·)).map fun b => (a, b)

theorem mem_orderedPairs : (a, b) ∈ orderedPairs xs ↔ a ∈ xs ∧ b ∈ xs ∧ a < b := by
  simp only [orderedPairs, List.mem_flatMap, List.mem_map, List.mem_filter, decide_eq_true_eq,
    Prod.mk.injEq]
  constructor
  · rintro ⟨a, ha, b, ⟨hb, hlt⟩, rfl, rfl⟩
    exact ⟨ha, hb, hlt⟩
  · rintro ⟨ha, hb, hlt⟩
    exact ⟨a, ha, b, ⟨hb, hlt⟩, rfl, rfl⟩

/-- No pair is listed twice. -/
theorem nodup_orderedPairs (h : xs.Nodup) : (orderedPairs xs).Nodup := by
  rw [orderedPairs, List.nodup_flatMap]
  constructor
  · intro a _
    exact (h.filter _).map fun _ _ hpair => (Prod.mk.inj hpair).2
  · refine h.imp fun hne => ?_
    intro pair hpair hpair'
    obtain ⟨_, -, rfl⟩ := List.mem_map.mp hpair
    obtain ⟨_, -, heq⟩ := List.mem_map.mp hpair'
    exact hne (Prod.mk.inj heq).1.symm

/-- Two elements, the smaller one first. -/
def orderedPair (x y : α) : α × α := if x < y then (x, y) else (y, x)

/-- The pair of an element with another one, and with which. -/
theorem orderedPair_eq {y : α} (hne : y ≠ x) :
    orderedPair x y = (a, b) ↔ a < b ∧ (a = x ∧ b = y ∨ a = y ∧ b = x) := by
  unfold orderedPair
  rcases lt_or_gt_of_ne hne with hlt | hlt
  · rw [if_neg hlt.not_gt, Prod.mk.injEq]
    constructor
    · rintro ⟨rfl, rfl⟩
      exact ⟨hlt, .inr ⟨rfl, rfl⟩⟩
    · rintro ⟨hab, ⟨rfl, rfl⟩ | ⟨rfl, rfl⟩⟩
      · exact absurd hab hlt.not_gt
      · exact ⟨rfl, rfl⟩
  · rw [if_pos hlt, Prod.mk.injEq]
    constructor
    · rintro ⟨rfl, rfl⟩
      exact ⟨hlt, .inl ⟨rfl, rfl⟩⟩
    · rintro ⟨hab, ⟨rfl, rfl⟩ | ⟨rfl, rfl⟩⟩
      · exact ⟨rfl, rfl⟩
      · exact absurd hab hlt.not_gt

/-- The pairs of an element with different ones are different. -/
theorem orderedPair_injOn {y z : α} (hy : y ≠ x) (hz : z ≠ x)
    (heq : orderedPair x y = orderedPair x z) : y = z := by
  obtain ⟨-, hpair⟩ := (orderedPair_eq hy).mp (heq.trans rfl)
  obtain ⟨-, hpair'⟩ := (orderedPair_eq hz).mp rfl
  rcases hpair with ⟨ha, hb⟩ | ⟨ha, hb⟩ <;> rcases hpair' with ⟨ha', hb'⟩ | ⟨ha', hb'⟩
  · exact hb.symm.trans hb'
  · exact absurd (hb.symm.trans hb') hy
  · exact absurd (ha.symm.trans ha') hy
  · exact ha.symm.trans ha'

/-- The pairs of an element with others are those it is in. -/
theorem mem_map_orderedPair {ys : List α} (hx : x ∉ ys) :
    (a, b) ∈ ys.map (orderedPair x) ↔ a < b ∧ (a = x ∧ b ∈ ys ∨ a ∈ ys ∧ b = x) := by
  rw [List.mem_map]
  constructor
  · rintro ⟨y, hy, hpair⟩
    have hne : y ≠ x := by
      rintro rfl
      exact hx hy
    obtain ⟨hlt, ⟨rfl, rfl⟩ | ⟨rfl, rfl⟩⟩ := (orderedPair_eq hne).mp hpair
    · exact ⟨hlt, .inl ⟨rfl, hy⟩⟩
    · exact ⟨hlt, .inr ⟨hy, rfl⟩⟩
  · rintro ⟨hlt, ⟨rfl, hb⟩ | ⟨ha, rfl⟩⟩
    · exact ⟨b, hb, (orderedPair_eq hlt.ne').mpr ⟨hlt, .inl ⟨rfl, rfl⟩⟩⟩
    · exact ⟨a, ha, (orderedPair_eq hlt.ne).mpr ⟨hlt, .inr ⟨rfl, rfl⟩⟩⟩

/-- The pairs with an element are those with each other element, and the rest are the pairs of the
others. -/
theorem orderedPairs_perm (h : xs.Nodup) (hx : x ∈ xs) :
    (orderedPairs xs).Perm
      ((xs.erase x).map (orderedPair x) ++ orderedPairs (xs.erase x)) := by
  have hrest : (xs.erase x).Nodup := h.erase x
  have hmem : ∀ y, y ∈ xs.erase x ↔ y ≠ x ∧ y ∈ xs := fun y => h.mem_erase_iff
  have hout : x ∉ xs.erase x := fun hin => ((hmem x).mp hin).1 rfl
  have hpairs : ((xs.erase x).map (orderedPair x)).Nodup := by
    refine hrest.map_on fun y hy z hz heq => ?_
    exact orderedPair_injOn ((hmem y).mp hy).1 ((hmem z).mp hz).1 heq
  have hnodup : ((xs.erase x).map (orderedPair x) ++ orderedPairs (xs.erase x)).Nodup := by
    refine hpairs.append (nodup_orderedPairs hrest) fun pair hpair hother => ?_
    obtain ⟨ha, hb, -⟩ := mem_orderedPairs.mp hother
    obtain ⟨-, ⟨rfl, -⟩ | ⟨-, rfl⟩⟩ := (mem_map_orderedPair hout).mp hpair
    · exact hout ha
    · exact hout hb
  refine (List.perm_ext_iff_of_nodup (nodup_orderedPairs h) hnodup).mpr fun pair => ?_
  rw [List.mem_append, mem_map_orderedPair hout, mem_orderedPairs, mem_orderedPairs, hmem, hmem]
  grind

/-- Of `k` elements there are `k * (k - 1) / 2` pairs. -/
theorem length_orderedPairs (h : xs.Nodup) :
    (orderedPairs xs).length = xs.length * (xs.length - 1) / 2 := by
  rw [← Nat.choose_two_right]
  induction xs with
  | nil => rfl
  | cons x xs ih =>
      have hperm := (orderedPairs_perm h List.mem_cons_self).length_eq
      rw [hperm, List.erase_cons_head, List.length_append, List.length_map, ih h.of_cons,
        List.length_cons, Nat.choose_succ_succ, Nat.choose_one_right]

/-- An element is in a pair with each of the others. -/
theorem countP_orderedPairs (h : xs.Nodup) (x : α) :
    (orderedPairs xs).countP (fun pair => pair.1 = x ∨ pair.2 = x) =
      if x ∈ xs then xs.length - 1 else 0 := by
  have hnone : ∀ ys : List α, x ∉ ys →
      (orderedPairs ys).countP (fun pair => pair.1 = x ∨ pair.2 = x) = 0 := by
    intro ys hout
    rw [List.countP_eq_zero]
    rintro ⟨a, b⟩ hpair hin
    obtain ⟨ha, hb, -⟩ := mem_orderedPairs.mp hpair
    rcases of_decide_eq_true hin with rfl | rfl
    · exact hout ha
    · exact hout hb
  split
  · next hx =>
      have hout : x ∉ xs.erase x := fun hin => (h.mem_erase_iff.mp hin).1 rfl
      have hall : ((xs.erase x).map (orderedPair x)).countP
          (fun pair => pair.1 = x ∨ pair.2 = x) = ((xs.erase x).map (orderedPair x)).length := by
        rw [List.countP_eq_length]
        rintro ⟨a, b⟩ hpair
        obtain ⟨-, ⟨rfl, -⟩ | ⟨-, rfl⟩⟩ := (mem_map_orderedPair hout).mp hpair <;> simp
      rw [(orderedPairs_perm h hx).countP_eq, List.countP_append, hall, hnone _ hout,
        List.length_map, List.length_erase_of_mem hx, Nat.add_zero]
  · next hx => exact hnone xs hx

end FoosballApi.Data
