import Mathlib.Data.Finset.Card
import Mathlib.Data.List.Sort

/-!
# Keyset pagination

A page holds the first rows after a bound, in the order of a key; the key of its last row is the
bound of the next page. A walk asks for one page after another while the rows change between the
requests. Whatever the changes are, a walk returns its rows in strictly increasing order and never
passes over a row: at every moment the bound stands for "after everything returned so far"
(`after_iff`), and everything else follows from this.
-/

namespace FoosballApi.Data.Keyset

variable {ρ κ : Type} [LinearOrder κ] (key : ρ → κ)

/-- A row comes after a bound; without a bound every row does. -/
def After (bound : Option κ) (row : ρ) : Prop := ∀ k ∈ bound, k < key row

instance (bound : Option κ) (row : ρ) : Decidable (After key bound row) :=
  inferInstanceAs (Decidable (∀ _ ∈ _, _))

/-- The rows after a bound, by their keys. -/
def sortedAfter (rows : List ρ) (bound : Option κ) : List ρ :=
  (rows.filter (After key bound)).insertionSort (key · ≤ key ·)

/-- The rows of a page, and whether there were more. -/
structure Page (ρ : Type) where
  data : List ρ
  hasMore : Bool

/-- The first `limit` rows after a bound; one more is read to know whether there are more. -/
def page (limit : Nat) (rows : List ρ) (bound : Option κ) : Page ρ :=
  let found := (sortedAfter key rows bound).take (limit + 1)
  ⟨found.take limit, limit < found.length⟩

/-- The bound of the next page. -/
def Page.next (p : Page ρ) : Option κ := if p.hasMore then p.data.getLast?.map key else none

/-! ## One page -/

variable {key} {limit : Nat} {rows : List ρ} {bound : Option κ} {row : ρ}

theorem mem_sortedAfter :
    row ∈ sortedAfter key rows bound ↔ row ∈ rows ∧ After key bound row := by
  simp [sortedAfter]

/-- Rows with different keys are sorted strictly. -/
theorem sortedAfter_pairwise (hkeys : (rows.map key).Nodup) :
    (sortedAfter key rows bound).Pairwise (key · < key ·) := by
  have hsorted : (sortedAfter key rows bound).Pairwise (key · ≤ key ·) :=
    List.pairwise_insertionSort (fun a b : ρ => key a ≤ key b) _
  have hdistinct : ((sortedAfter key rows bound).map key).Nodup := by
    have hperm := (List.perm_insertionSort (fun a b : ρ => key a ≤ key b)
      (rows.filter (After key bound))).map key
    exact hperm.nodup_iff.mpr (hkeys.sublist (List.filter_sublist.map key))
  exact (hsorted.and (List.pairwise_map.mp hdistinct)).imp fun ⟨hle, hne⟩ =>
    lt_of_le_of_ne hle hne

theorem data_eq : (page key limit rows bound).data = (sortedAfter key rows bound).take limit := by
  rw [page, List.take_take, Nat.min_eq_left (Nat.le_succ limit)]

theorem hasMore_iff :
    (page key limit rows bound).hasMore = true ↔ limit < (sortedAfter key rows bound).length := by
  simp only [page, List.length_take, decide_eq_true_eq]
  omega

/-- A page holds rows after its bound. -/
theorem mem_data (h : row ∈ (page key limit rows bound).data) :
    row ∈ rows ∧ After key bound row := by
  rw [data_eq] at h
  exact mem_sortedAfter.mp (List.mem_of_mem_take h)

theorem data_pairwise (hkeys : (rows.map key).Nodup) :
    (page key limit rows bound).data.Pairwise (key · < key ·) := by
  rw [data_eq]
  exact (sortedAfter_pairwise hkeys).sublist (List.take_sublist _ _)

/-- A row after the bound that is not on the page comes after the page. -/
theorem lt_of_not_mem_data (hkeys : (rows.map key).Nodup) (hrow : row ∈ rows)
    (hafter : After key bound row) (hnot : row ∉ (page key limit rows bound).data) {a : ρ}
    (ha : a ∈ (page key limit rows bound).data) : key a < key row := by
  rw [data_eq] at hnot ha
  have hmem := mem_sortedAfter.mpr ⟨hrow, hafter⟩
  have hpairwise : (sortedAfter key rows bound).Pairwise (key · < key ·) :=
    sortedAfter_pairwise hkeys
  rw [← List.take_append_drop limit (sortedAfter key rows bound)] at hmem hpairwise
  have hdrop := (List.mem_append.mp hmem).resolve_left hnot
  exact (List.pairwise_append.mp hpairwise).2.2 a ha row hdrop

/-- There is more exactly when a row after the bound comes after the page. -/
theorem hasMore_iff_exists (hkeys : (rows.map key).Nodup) :
    (page key limit rows bound).hasMore = true ↔ ∃ row ∈ rows, After key bound row ∧
      ∀ a ∈ (page key limit rows bound).data, key a < key row := by
  constructor
  · intro hmore
    have hdrop : 0 < ((sortedAfter key rows bound).drop limit).length := by
      have hlength := hasMore_iff.mp hmore
      rw [List.length_drop]
      omega
    obtain ⟨row, hrow⟩ := List.exists_mem_of_length_pos hdrop
    obtain ⟨hmem, hafter⟩ := mem_sortedAfter.mp (List.mem_of_mem_drop hrow)
    have hpairwise : (sortedAfter key rows bound).Pairwise (key · < key ·) :=
      sortedAfter_pairwise hkeys
    rw [← List.take_append_drop limit (sortedAfter key rows bound)] at hpairwise
    refine ⟨row, hmem, hafter, fun a ha => ?_⟩
    rw [data_eq] at ha
    exact (List.pairwise_append.mp hpairwise).2.2 a ha row hrow
  · rintro ⟨row, hrow, hafter, hlt⟩
    by_contra hmore
    have hlength := Nat.le_of_not_lt (mt hasMore_iff.mpr hmore)
    have hmem := mem_sortedAfter.mpr ⟨hrow, hafter⟩
    rw [← List.take_of_length_le hlength, ← data_eq] at hmem
    exact absurd (hlt row hmem) (lt_irrefl _)

/-- A page that is not the last is full. -/
theorem length_data (hmore : (page key limit rows bound).hasMore = true) :
    (page key limit rows bound).data.length = limit := by
  have hlength := hasMore_iff.mp hmore
  rw [data_eq, List.length_take]
  omega

/-- After the bound of the next page means after every row of the page. -/
theorem next_lt_iff (hkeys : (rows.map key).Nodup) {k : κ}
    (hnext : (page key limit rows bound).next key = some k) :
    k < key row ↔ ∀ a ∈ (page key limit rows bound).data, key a < key row := by
  unfold Page.next at hnext
  split at hnext
  · obtain ⟨last, hlast, rfl⟩ := Option.map_eq_some_iff.mp hnext
    obtain ⟨before, hdata⟩ := List.getLast?_eq_some_iff.mp hlast
    have hpairwise : (page key limit rows bound).data.Pairwise (key · < key ·) :=
      data_pairwise hkeys
    rw [hdata] at hpairwise ⊢
    constructor
    · intro hlt a ha
      rcases List.mem_append.mp ha with hbefore | hself
      · have hle := (List.pairwise_append.mp hpairwise).2.2 a hbefore last List.mem_cons_self
        exact hle.trans hlt
      · rwa [List.mem_singleton.mp hself]
    · exact fun h => h last (List.mem_append_right _ List.mem_cons_self)
  · cases hnext

/-- The bound of the next page is the key of a row of this one. -/
theorem exists_of_next {k : κ} (hnext : (page key limit rows bound).next key = some k) :
    (page key limit rows bound).hasMore = true ∧
      ∃ a ∈ (page key limit rows bound).data, key a = k := by
  unfold Page.next at hnext
  split at hnext
  · next hmore =>
      obtain ⟨last, hlast, rfl⟩ := Option.map_eq_some_iff.mp hnext
      exact ⟨hmore, last, List.mem_of_getLast? hlast, rfl⟩
  · cases hnext

/-! ## Walks -/

section

variable (key) (limit) (rowsAt : Nat → List ρ)

/-- The bound of the `n`th page, as long as the walk goes on. -/
def boundAt : Nat → Option (Option κ)
  | 0 => some none
  | n + 1 => do
      let bound ← boundAt n
      let next ← (page key limit (rowsAt n) bound).next key
      return some next

/-- The `n`th page of a walk over rows that change from page to page. -/
def pageAt (n : Nat) : Option (Page ρ) :=
  (boundAt key limit rowsAt n).map (page key limit (rowsAt n))

/-- The rows of the first `n` pages. -/
def returned : Nat → List ρ
  | 0 => []
  | n + 1 => returned n ++ ((pageAt key limit rowsAt n).map Page.data).getD []

end

variable {rowsAt : Nat → List ρ} {n : Nat}

theorem boundAt_succ {next : Option κ} (h : boundAt key limit rowsAt (n + 1) = some next) :
    ∃ bound k, boundAt key limit rowsAt n = some bound ∧ next = some k ∧
      (page key limit (rowsAt n) bound).next key = some k := by
  rw [boundAt] at h
  obtain ⟨bound, hbound, h⟩ := Option.bind_eq_some_iff.mp h
  obtain ⟨k, hk, h⟩ := Option.bind_eq_some_iff.mp h
  exact ⟨bound, k, hbound, (Option.some.inj h).symm, hk⟩

/-- A walk goes on from the last row of a page that is not the last. -/
theorem pageAt_succ :
    pageAt key limit rowsAt (n + 1) = (pageAt key limit rowsAt n).bind fun p =>
      (p.next key).map fun k => page key limit (rowsAt (n + 1)) (some k) := by
  rw [pageAt, pageAt, boundAt]
  cases boundAt key limit rowsAt n with
  | none => rfl
  | some bound =>
      change ((((page key limit (rowsAt n) bound).next key).bind fun k => some (some k)).map _) =
        ((page key limit (rowsAt n) bound).next key).map _
      cases (page key limit (rowsAt n) bound).next key with
      | none => rfl
      | some k => rfl

theorem returned_succ {bound : Option κ} (h : boundAt key limit rowsAt n = some bound) :
    returned key limit rowsAt (n + 1) =
      returned key limit rowsAt n ++ (page key limit (rowsAt n) bound).data := by
  rw [returned, pageAt, h]
  rfl

/-- What a walk returns was a row when its page was read. -/
theorem exists_row_of_returned (h : row ∈ returned key limit rowsAt n) : ∃ m, row ∈ rowsAt m := by
  induction n with
  | zero => cases h
  | succ n ih =>
      cases hbound : boundAt key limit rowsAt n with
      | none =>
          rw [returned, pageAt, hbound] at h
          exact ih (by simpa using h)
      | some bound =>
          rw [returned_succ hbound] at h
          rcases List.mem_append.mp h with hbefore | hpage
          · exact ih hbefore
          · exact ⟨n, (mem_data hpage).1⟩

/-- While a walk goes on, its bound stands for everything it has returned. -/
theorem after_iff (hkeys : ∀ n, ((rowsAt n).map key).Nodup) {bound : Option κ}
    (h : boundAt key limit rowsAt n = some bound) :
    After key bound row ↔ ∀ a ∈ returned key limit rowsAt n, key a < key row := by
  induction n generalizing bound row with
  | zero =>
      obtain rfl := Option.some.inj h
      simp [After, returned]
  | succ n ih =>
      obtain ⟨before, k, hbefore, rfl, hnext⟩ := boundAt_succ h
      have hlt : k < key row ↔ ∀ a ∈ (page key limit (rowsAt n) before).data, key a < key row :=
        next_lt_iff (hkeys n) hnext
      rw [returned_succ hbefore, List.forall_mem_append, ← hlt]
      refine ⟨fun hafter => ⟨?_, hafter k rfl⟩, fun hafter k' hk' => ?_⟩
      · -- The last row of the page lies between the earlier rows and this one.
        obtain ⟨-, last, hlast, rfl⟩ := exists_of_next hnext
        intro a ha
        exact ((ih hbefore).mp (mem_data hlast).2 a ha).trans (hafter _ rfl)
      · obtain rfl := Option.some.inj hk'
        exact hafter.2

/-- A walk returns its rows in strictly increasing order, within and across pages. -/
theorem returned_pairwise (hkeys : ∀ n, ((rowsAt n).map key).Nodup) (n : Nat) :
    (returned key limit rowsAt n).Pairwise (key · < key ·) := by
  induction n with
  | zero => exact .nil
  | succ n ih =>
      cases hbound : boundAt key limit rowsAt n with
      | none =>
          rw [returned, pageAt, hbound]
          simpa using ih
      | some bound =>
          rw [returned_succ hbound]
          refine List.pairwise_append.mpr ⟨ih, data_pairwise (hkeys n), fun a ha b hb => ?_⟩
          exact (after_iff hkeys hbound).mp (mem_data hb).2 a ha

/-- A page is the last one exactly when no row comes after the rows returned so far. -/
theorem hasMore_eq_false_iff (hkeys : ∀ n, ((rowsAt n).map key).Nodup) {p : Page ρ}
    (h : pageAt key limit rowsAt n = some p) :
    p.hasMore = false ↔
      ¬ ∃ row ∈ rowsAt n, ∀ a ∈ returned key limit rowsAt (n + 1), key a < key row := by
  obtain ⟨bound, hbound, rfl⟩ := Option.map_eq_some_iff.mp h
  rw [← Bool.not_eq_true, hasMore_iff_exists (hkeys n), returned_succ hbound]
  simp only [List.forall_mem_append, after_iff hkeys hbound]

/-- A row that is present at a request and comes after all that was returned before is on the page,
or comes after the page too. -/
theorem returned_or_after (hkeys : ∀ n, ((rowsAt n).map key).Nodup) {bound : Option κ}
    (h : boundAt key limit rowsAt n = some bound) (hrow : row ∈ rowsAt n)
    (hafter : ∀ a ∈ returned key limit rowsAt n, key a < key row) :
    row ∈ returned key limit rowsAt (n + 1) ∨
      ∀ a ∈ returned key limit rowsAt (n + 1), key a < key row := by
  rw [returned_succ h]
  by_cases hmem : row ∈ (page key limit (rowsAt n) bound).data
  · exact .inl (List.mem_append_right _ hmem)
  · refine .inr (List.forall_mem_append.mpr ⟨hafter, fun a ha => ?_⟩)
    exact lt_of_not_mem_data (hkeys n) hrow ((after_iff hkeys h).mpr hafter) hmem ha

/-- A row that was present at every request of a finished walk was returned. -/
theorem exists_returned (hkeys : ∀ n, ((rowsAt n).map key).Nodup) {p : Page ρ}
    (h : pageAt key limit rowsAt n = some p) (hlast : p.hasMore = false) {k : κ}
    (hpresent : ∀ m ≤ n, ∃ row ∈ rowsAt m, key row = k) :
    ∃ a ∈ returned key limit rowsAt (n + 1), key a = k := by
  -- As long as it was not returned, it comes after all that was.
  have hwalk : ∀ m ≤ n + 1, (∃ a ∈ returned key limit rowsAt m, key a = k) ∨
      ∀ a ∈ returned key limit rowsAt m, key a < k := by
    intro m
    induction m with
    | zero => exact fun _ => .inr fun a ha => absurd ha List.not_mem_nil
    | succ m ih =>
        intro hm
        cases hbound : boundAt key limit rowsAt m with
        | none =>
            rw [returned, pageAt, hbound]
            simpa using ih (Nat.le_of_succ_le hm)
        | some bound =>
            rcases ih (Nat.le_of_succ_le hm) with ⟨a, ha, hkey⟩ | hafter
            · rw [returned_succ hbound]
              exact .inl ⟨a, List.mem_append_left _ ha, hkey⟩
            · obtain ⟨row, hrow, rfl⟩ := hpresent m (Nat.le_of_succ_le_succ hm)
              have hstep := returned_or_after hkeys hbound hrow hafter
              exact hstep.imp_left fun hmem => ⟨row, hmem, rfl⟩
  refine (hwalk (n + 1) le_rfl).resolve_right fun hafter => ?_
  obtain ⟨row, hrow, rfl⟩ := hpresent n le_rfl
  exact (hasMore_eq_false_iff hkeys h).mp hlast ⟨row, hrow, hafter⟩

/-- Every page before the current one was full. -/
theorem length_returned {bound : Option κ} (h : boundAt key limit rowsAt n = some bound) :
    (returned key limit rowsAt n).length = n * limit := by
  induction n generalizing bound with
  | zero => simp [returned]
  | succ n ih =>
      obtain ⟨before, k, hbefore, -, hnext⟩ := boundAt_succ h
      obtain ⟨hmore, -⟩ := exists_of_next hnext
      rw [returned_succ hbefore, List.length_append, ih hbefore, length_data hmore, Nat.succ_mul]

/-- A walk over rows with finitely many keys ends. -/
theorem exists_pageAt_eq_none (hkeys : ∀ n, ((rowsAt n).map key).Nodup) (hlimit : 1 ≤ limit)
    {keys : Finset κ} (hfinite : ∀ n, ∀ row ∈ rowsAt n, key row ∈ keys) :
    ∃ n, pageAt key limit rowsAt n = none := by
  refine ⟨keys.card + 1, ?_⟩
  cases hbound : boundAt key limit rowsAt (keys.card + 1) with
  | none => rw [pageAt, hbound, Option.map_none]
  | some bound =>
      exfalso
      have hpairwise : (returned key limit rowsAt (keys.card + 1)).Pairwise (key · < key ·) :=
        returned_pairwise hkeys _
      have hnodup : ((returned key limit rowsAt (keys.card + 1)).map key).Nodup :=
        List.pairwise_map.mpr (hpairwise.imp fun hlt => ne_of_lt hlt)
      have hsubset : ((returned key limit rowsAt (keys.card + 1)).map key).toFinset ⊆ keys := by
        intro k hk
        obtain ⟨row, hrow, rfl⟩ := List.mem_map.mp (List.mem_toFinset.mp hk)
        obtain ⟨m, hm⟩ := exists_row_of_returned hrow
        exact hfinite m row hm
      have hcard := Finset.card_le_card hsubset
      rw [List.toFinset_card_of_nodup hnodup, List.length_map, length_returned hbound] at hcard
      have hle := Nat.le_mul_of_pos_right (keys.card + 1) hlimit
      omega

end FoosballApi.Data.Keyset
