import Mathlib.Order.Defs.LinearOrder
import Mathlib.Data.List.Sort

/-!
# Order statistics

`orderStatistic xs r` is the `r`-th smallest item of a list, the smallest one being the first. It is
below a bound if and only if at least `r` items are (`orderStatistic_lt_iff`), so counts of the items
below bounds locate it.
-/

set_option autoImplicit false

universe u

variable {α : Type u} [LinearOrder α]

/-- In a sorted list the items below a bound come first. -/
theorem getElem_lt_iff_lt_countP {l : List α} (hl : l.Pairwise (· ≤ ·)) (y : α) {k : Nat}
    (hk : k < l.length) : l[k] < y ↔ k < l.countP (· < y) := by
  induction l generalizing k with
  | nil => exact absurd hk (Nat.not_lt_zero k)
  | cons x xs ih =>
      obtain ⟨hx, hxs⟩ := List.pairwise_cons.1 hl
      rw [List.countP_cons]
      by_cases hxy : x < y
      · cases k with
        | zero => simp [hxy]
        | succ k =>
            have hk' : k < xs.length := Nat.lt_of_succ_lt_succ hk
            rw [List.getElem_cons_succ, ih hxs hk', if_pos (decide_eq_true hxy)]
            omega
      · -- no item is below the bound when the first one is not
        have hnone : xs.countP (· < y) = 0 := by
          apply List.countP_eq_zero.2
          intro z hz hzy
          exact hxy (lt_of_le_of_lt (hx z hz) (of_decide_eq_true hzy))
        have hge : ¬ (x :: xs)[k] < y := by
          intro hlt
          cases k with
          | zero => exact hxy hlt
          | succ k => exact hxy (lt_of_le_of_lt (hx _ (List.getElem_mem _)) hlt)
        rw [hnone, if_neg (by simpa using hxy)]
        simp [hge]

/-- The `r`-th smallest item, counted from one. -/
def orderStatistic (xs : List α) (r : Nat) : Option α :=
  (xs.mergeSort (· ≤ ·))[r - 1]?

section OrderStatistic

variable {xs : List α} {r : Nat}

theorem pairwise_mergeSort_le (xs : List α) : (xs.mergeSort (· ≤ ·)).Pairwise (· ≤ ·) := by
  have hsorted : (xs.mergeSort (· ≤ ·)).Pairwise fun a b => decide (a ≤ b) := by
    apply List.pairwise_mergeSort
    · intro a b c hab hbc
      rw [decide_eq_true_eq] at hab hbc ⊢
      exact le_trans hab hbc
    · intro a b
      simpa using le_total a b
  exact hsorted.imp of_decide_eq_true

theorem exists_orderStatistic (hr : 0 < r) (hle : r ≤ xs.length) :
    ∃ x, orderStatistic xs r = some x := by
  have hlt : r - 1 < (xs.mergeSort (· ≤ ·)).length := by
    rw [List.length_mergeSort]
    omega
  exact ⟨_, List.getElem?_eq_getElem hlt⟩

theorem orderStatistic_mem {x : α} (h : orderStatistic xs r = some x) : x ∈ xs :=
  List.mem_mergeSort.1 (List.mem_of_getElem? h)

theorem orderStatistic_lt_iff {x : α} (h : orderStatistic xs r = some x) (hr : 0 < r) (y : α) :
    x < y ↔ r ≤ xs.countP (· < y) := by
  obtain ⟨hlt, rfl⟩ := List.getElem?_eq_some_iff.1 h
  rw [getElem_lt_iff_lt_countP (pairwise_mergeSort_le xs) y hlt,
    (List.mergeSort_perm xs _).countP_eq]
  omega

end OrderStatistic

section Counts

variable (xs : List α)

/-- The items below an upper bound are those below a lower one and those between the two. -/
theorem countP_lt_add_countP {lo hi : α} (h : lo ≤ hi) :
    xs.countP (· < lo) + xs.countP (fun x => lo ≤ x ∧ x < hi) = xs.countP (· < hi) := by
  induction xs with
  | nil => rfl
  | cons x xs ih =>
      simp only [List.countP_cons, decide_eq_true_eq] at ih ⊢
      rw [← ih]
      by_cases hlo : x < lo
      · rw [if_pos hlo, if_neg (fun hx => absurd hlo (not_lt.2 hx.1)), if_pos (hlo.trans_le h)]
        omega
      · have hiff : (lo ≤ x ∧ x < hi) ↔ x < hi := and_iff_right (not_lt.1 hlo)
        rw [if_neg hlo, if_congr hiff rfl rfl]
        omega

theorem countP_lt_add_countP_le (y : α) :
    xs.countP (· < y) + xs.countP (y ≤ ·) = xs.length := by
  rw [List.length_eq_countP_add_countP (fun x => decide (x < y))]
  congr 1
  apply List.countP_congr
  intro x _
  simp

theorem countP_lt_mono {y z : α} (h : y ≤ z) : xs.countP (· < y) ≤ xs.countP (· < z) := by
  apply List.countP_mono_left
  intro x _ hx
  rw [decide_eq_true_eq] at hx ⊢
  exact hx.trans_le h

end Counts
