import CallAtlas.Analysis.ValueFlow
import Mathlib.Data.List.Induction
import Mathlib.Data.List.Perm.Basic

/-!
# Lists in which nothing stands twice

The analyses keep types, functions and targets in lists from which repetitions are removed, and the
theorems about them speak of sets: which functions a site calls, each once. The facts below are what
takes one to the other. All these lists grow at their end, so the first two facts say what one more
element there does, and the others follow by induction from that end.
-/

set_option autoImplicit false

namespace CallAtlas

variable {α : Type} [BEq α] [LawfulBEq α]

/-- An element that is there already changes nothing at the end. -/
theorem eraseDups_concat_of_mem {xs : List α} {x : α} (h : x ∈ xs) :
    (xs ++ [x]).eraseDups = xs.eraseDups := by
  simp [List.eraseDups_append, List.removeAll, h]

/-- A new element stays at the end. -/
theorem eraseDups_concat_of_notMem {xs : List α} {x : α} (h : x ∉ xs) :
    (xs ++ [x]).eraseDups = xs.eraseDups ++ [x] := by
  simp [List.eraseDups_append, List.removeAll, h, List.eraseDups_cons]

theorem nodup_eraseDups (xs : List α) : xs.eraseDups.Nodup := by
  induction xs using List.reverseRecOn with
  | nil => simp
  | append_singleton xs x ih =>
    by_cases hx : x ∈ xs
    · rw [eraseDups_concat_of_mem hx]
      exact ih
    · rw [eraseDups_concat_of_notMem hx]
      rw [List.nodup_append]
      refine ⟨ih, by simp, ?_⟩
      intro a ha b hb hab
      rw [List.mem_singleton] at hb
      rw [List.mem_eraseDups, hab, hb] at ha
      exact hx ha

theorem eraseDups_sublist (xs : List α) : xs.eraseDups.Sublist xs := by
  induction xs using List.reverseRecOn with
  | nil => simp
  | append_singleton xs x ih =>
    by_cases hx : x ∈ xs
    · rw [eraseDups_concat_of_mem hx]
      exact ih.trans (List.sublist_append_left xs [x])
    · rw [eraseDups_concat_of_notMem hx]
      exact ih.append (List.Sublist.refl [x])

/-- Two lists with the same elements are the same up to order once repetitions are removed. -/
theorem eraseDups_perm {xs ys : List α} (h : ∀ x, x ∈ xs ↔ x ∈ ys) :
    xs.eraseDups.Perm ys.eraseDups := by
  rw [List.perm_ext_iff_of_nodup (nodup_eraseDups xs) (nodup_eraseDups ys)]
  intro x
  rw [List.mem_eraseDups, List.mem_eraseDups]
  exact h x

theorem filter_eraseDups (q : α → Bool) (xs : List α) :
    xs.eraseDups.filter q = (xs.filter q).eraseDups := by
  induction xs using List.reverseRecOn with
  | nil => simp
  | append_singleton xs x ih =>
    by_cases hx : x ∈ xs
    · rw [eraseDups_concat_of_mem hx, ih, List.filter_append]
      by_cases hq : q x
      · rw [List.filter_cons_of_pos hq, List.filter_nil,
          eraseDups_concat_of_mem (List.mem_filter.mpr ⟨hx, hq⟩)]
      · rw [List.filter_cons_of_neg hq, List.filter_nil, List.append_nil]
    · rw [eraseDups_concat_of_notMem hx, List.filter_append, ih, List.filter_append]
      by_cases hq : q x
      · have hnew : x ∉ xs.filter q := fun h => hx (List.mem_filter.mp h).1
        rw [List.filter_cons_of_pos hq, List.filter_nil, eraseDups_concat_of_notMem hnew]
      · rw [List.filter_cons_of_neg hq, List.filter_nil, List.append_nil, List.append_nil]

/-- Repetitions need not be removed before a function is applied if they are removed after it. -/
theorem eraseDups_filterMap_eraseDups {β : Type} [BEq β] [LawfulBEq β] (g : α → Option β)
    (xs : List α) : (xs.eraseDups.filterMap g).eraseDups = (xs.filterMap g).eraseDups := by
  induction xs using List.reverseRecOn with
  | nil => simp
  | append_singleton xs x ih =>
    by_cases hx : x ∈ xs
    · rw [eraseDups_concat_of_mem hx, ih, List.filterMap_append]
      cases hg : g x with
      | none => simp [hg]
      | some y =>
        have hy : y ∈ xs.filterMap g := List.mem_filterMap.mpr ⟨x, hx, hg⟩
        rw [List.filterMap_cons_some hg, List.filterMap_nil, eraseDups_concat_of_mem hy]
    · have hmem : ∀ y, y ∈ xs.eraseDups.filterMap g ↔ y ∈ xs.filterMap g := by
        simp only [List.mem_filterMap, List.mem_eraseDups, implies_true]
      rw [eraseDups_concat_of_notMem hx, List.filterMap_append, List.filterMap_append,
        List.eraseDups_append, List.eraseDups_append, ih]
      simp only [List.removeAll, List.elem_eq_mem, hmem]

/-! ## Numbers in increasing order -/

namespace Program

theorem mem_ascending {ids : List FuncId} {id : FuncId} : id ∈ ascending ids ↔ id ∈ ids := by
  simp [ascending]

theorem ascending_pairwise (ids : List FuncId) : (ascending ids).Pairwise (· < ·) := by
  have htrans : ∀ a b c : Nat, decide (a ≤ b) → decide (b ≤ c) → decide (a ≤ c) := by
    simp only [decide_eq_true_eq]
    omega
  have htotal : ∀ a b : Nat, decide (a ≤ b) || decide (b ≤ a) := by
    simp only [Bool.or_eq_true, decide_eq_true_eq]
    omega
  have hle : (ids.mergeSort (· ≤ ·)).Pairwise (· ≤ ·) := by
    simpa using List.pairwise_mergeSort htrans htotal ids
  have hsub : (ascending ids).Pairwise (· ≤ ·) := hle.sublist (eraseDups_sublist _)
  have hne : (ascending ids).Pairwise (· ≠ ·) := nodup_eraseDups _
  exact (hsub.and hne).imp fun h => Nat.lt_of_le_of_ne h.1 h.2

end Program

end CallAtlas
