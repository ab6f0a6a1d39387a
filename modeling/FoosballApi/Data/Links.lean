import FoosballApi.Data.Table
import Mathlib.Logic.Relation
import Mathlib.Data.Set.Finite.Basic
import Mathlib.Order.Preorder.Finite

/-!
# Links between the rows of a table

A row may name the key of another row, its successor. When every successor is stored and has a
greater key, the links never lead back to a row, and following them from any row ends.
-/

namespace FoosballApi.Data.Table

open Relation

variable {ρ κ : Type} {key : ρ → κ}

/-- `next` is stored and is the row that `row` names. -/
def Succeeds (t : Table key) (link : ρ → Option κ) (row next : ρ) : Prop :=
  next ∈ t ∧ link row = some (key next)

variable [Preorder κ] {t : Table key} {link : ρ → Option κ} {row next : ρ}

/-- Every row that is named is stored, under a greater key than the row that names it, and has the
same owner. -/
def Ascending {γ : Type} (t : Table key) (link : ρ → Option κ) (owner : ρ → γ) : Prop :=
  ∀ row ∈ t, ∀ k, link row = some k →
    ∃ next ∈ t, key next = k ∧ key row < key next ∧ owner next = owner row

variable {γ : Type} {owner : ρ → γ}

/-- A successor has a greater key and the same owner. -/
theorem Ascending.succeeds (h : t.Ascending link owner) (hrow : row ∈ t)
    (hnext : t.Succeeds link row next) : key row < key next ∧ owner next = owner row := by
  obtain ⟨next', hmem, hkey, hlt, howner⟩ := h row hrow _ hnext.2
  rw [eq_of_key hnext.1 hmem hkey.symm]
  exact ⟨hlt, howner⟩

/-- So has every row that the links lead to: none of them is the first one again. -/
theorem Ascending.transGen (h : t.Ascending link owner) (hrow : row ∈ t)
    (hlinks : TransGen (t.Succeeds link) row next) :
    next ∈ t ∧ key row < key next ∧ owner next = owner row := by
  induction hlinks with
  | single hnext => exact ⟨hnext.1, h.succeeds hrow hnext⟩
  | tail _ hnext ih =>
      obtain ⟨hmem, hlt, howner⟩ := ih
      obtain ⟨hlt', howner'⟩ := h.succeeds hmem hnext
      exact ⟨hnext.1, lt_trans hlt hlt', howner'.trans howner⟩

/-- The links lead from every row to one that has no successor. -/
theorem Ascending.exists_last (h : t.Ascending link owner) (hrow : row ∈ t) :
    ∃ last ∈ t, ReflTransGen (t.Succeeds link) row last ∧ link last = none := by
  -- The row with the greatest key among those the links lead to.
  let reached : Set ρ := {next | next ∈ t ∧ ReflTransGen (t.Succeeds link) row next}
  have hfinite : reached.Finite := (List.finite_toSet t.rows).subset fun _ hnext => hnext.1
  obtain ⟨last, ⟨hmem, hlinks⟩, hmax⟩ :=
    hfinite.exists_maximalFor key reached ⟨row, hrow, .refl⟩
  refine ⟨last, hmem, hlinks, ?_⟩
  cases hlink : link last with
  | none => rfl
  | some k =>
      obtain ⟨next, hnext, hkey, hlt, -⟩ := h last hmem k hlink
      subst hkey
      have hle := hmax ⟨hnext, hlinks.tail ⟨hnext, hlink⟩⟩ hlt.le
      exact absurd hlt (not_lt_of_ge hle)

/-! ## Keeping the links ascending -/

variable [DecidableEq κ]

/-- A new row that names no other may be written. -/
theorem Ascending.put (h : t.Ascending link owner) (hnew : t.get (key row) = none)
    (hlink : link row = none) : (t.put row).Ascending link owner := by
  intro old hold k hk
  rcases mem_put.mp hold with rfl | ⟨hold, -⟩
  · rw [hlink] at hk
    cases hk
  · obtain ⟨next, hnext, hkey, hlt, howner⟩ := h old hold k hk
    exact ⟨next, mem_put.mpr (.inr ⟨hnext, get_eq_none.mp hnew next hnext⟩), hkey, hlt, howner⟩

omit [DecidableEq κ] in
/-- Rows may be changed to name a stored row with a greater key and the same owner. -/
theorem Ascending.modify {p : ρ → Bool} (change : ρ → ρ) (hkey : ∀ row, key (change row) = key row)
    (howner : ∀ row, owner (change row) = owner row) (h : t.Ascending link owner)
    (hlink : ∀ row ∈ t, p row → ∀ k, link (change row) = some k → link row = some k ∨
      ∃ next ∈ t, key next = k ∧ key row < key next ∧ owner next = owner row) :
    (t.modify p change hkey).Ascending link owner := by
  -- A change keeps the key and the owner, so a stored successor stays one.
  have hsame : ∀ row, key (if p row then change row else row) = key row ∧
      owner (if p row then change row else row) = owner row := by
    intro row
    split
    · exact ⟨hkey row, howner row⟩
    · exact ⟨rfl, rfl⟩
  intro new hnew k hk
  obtain ⟨old, hold, rfl⟩ := (mem_modify change hkey).mp hnew
  obtain ⟨next, hnext, hnextKey, hlt, hnextOwner⟩ :
      ∃ next ∈ t, key next = k ∧ key old < key next ∧ owner next = owner old := by
    by_cases hp : p old = true
    · rw [if_pos hp] at hk
      rcases hlink old hold hp k hk with hold' | hnext
      · exact h old hold k hold'
      · exact hnext
    · rw [if_neg hp] at hk
      exact h old hold k hk
  refine ⟨_, (mem_modify change hkey).mpr ⟨next, hnext, rfl⟩, (hsame next).1.trans hnextKey, ?_, ?_⟩
  · rw [(hsame next).1, (hsame old).1]
    exact hlt
  · rw [(hsame next).2, (hsame old).2, hnextOwner]

end FoosballApi.Data.Table
