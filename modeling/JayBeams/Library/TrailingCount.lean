import Mathlib.Algebra.Order.Ring.Int
import Mathlib.Data.List.Count

/-!
# Trailing counts on a ring of slots

`trailingCount width xs p` is the number of items of `xs` among the last `width` integers up to `p`.
Moving the window by one integer exchanges the count of the integer that leaves it for the count of
the one that enters (`trailingCount_succ`).

A ring of `n` slots keeps one count for each integer of the window. `Ring.next` is the slot after a
position and `Ring.back` the slot that lies a number of places before it. A step forward moves every
slot one place back (`Ring.back_next`) and takes the slot of the oldest place (`Ring.back_oldest`).
-/

set_option autoImplicit false

/-- The number of items in `(p - width, p]`. -/
def trailingCount (width : Nat) (xs : List Int) (p : Int) : Nat :=
  xs.countP fun x => p - width < x ∧ x ≤ p

section TrailingCount

variable {width : Nat} {xs : List Int} {p q : Int}

@[simp] theorem trailingCount_nil : trailingCount width [] p = 0 := rfl

theorem trailingCount_append (ys : List Int) :
    trailingCount width (xs ++ ys) p = trailingCount width xs p + trailingCount width ys p :=
  List.countP_append

/-- The window at the next integer has gained its count and lost that of the oldest one. -/
theorem trailingCount_succ (hw : 0 < width) :
    trailingCount width xs (p + 1) + xs.count (p + 1 - width) =
      trailingCount width xs p + xs.count (p + 1) := by
  induction xs with
  | nil => rfl
  | cons x xs ih =>
      simp only [trailingCount, List.countP_cons, List.count_cons, decide_eq_true_eq, beq_iff_eq]
        at ih ⊢
      split_ifs <;> omega

/-- An integer of the window is counted at most as often as the whole window. -/
theorem count_le_trailingCount (h : p - width < q) (h' : q ≤ p) :
    xs.count q ≤ trailingCount width xs p := by
  rw [List.count_eq_countP]
  apply List.countP_mono_left
  intro x _ hx
  rw [beq_iff_eq] at hx
  subst hx
  exact decide_eq_true ⟨h, h'⟩

/-- A window beyond the last item holds no more than the window that ends at that item. -/
theorem trailingCount_le_of_le (hlast : ∀ x ∈ xs, x ≤ p) (h : p ≤ q) :
    trailingCount width xs q ≤ trailingCount width xs p := by
  apply List.countP_mono_left
  intro x hx hq
  rw [decide_eq_true_eq] at hq ⊢
  exact ⟨by omega, hlast x hx⟩

/-- Items beyond the window do not count. -/
theorem trailingCount_append_of_lt {ys : List Int} (h : ∀ y ∈ ys, p < y) :
    trailingCount width (xs ++ ys) p = trailingCount width xs p := by
  have hys : trailingCount width ys p = 0 := by
    apply List.countP_eq_zero.2
    intro y hy hp
    have hlt := h y hy
    rw [decide_eq_true_eq] at hp
    omega
  rw [trailingCount_append, hys, Nat.add_zero]

theorem count_eq_zero_of_lt (hlast : ∀ x ∈ xs, x ≤ p) (h : p < q) : xs.count q = 0 := by
  apply List.count_eq_zero.2
  intro hq
  exact absurd (hlast q hq) (by omega)

end TrailingCount

namespace Ring

/-- The slot after a position of a ring of `n` slots. -/
def next (n pos : Nat) : Nat := if pos + 1 = n then 0 else pos + 1

/-- The slot `k` places before a position of a ring of `n` slots. -/
def back (n pos k : Nat) : Nat := if k ≤ pos then pos - k else pos + n - k

section Position

variable {n pos k : Nat}

theorem next_lt (h : pos < n) : next n pos < n := by
  unfold next
  split_ifs <;> omega

@[simp] theorem back_zero : back n pos 0 = pos := by simp [back]

theorem back_lt (h : pos < n) (hk : k < n) : back n pos k < n := by
  unfold back
  split_ifs <;> omega

theorem back_next (hk : k + 1 < n) : back n (next n pos) (k + 1) = back n pos k := by
  unfold back next
  split_ifs <;> omega

/-- No other place of the ring is the slot of the position. -/
theorem back_ne_self (hk : k + 1 < n) : back n pos (k + 1) ≠ pos := by
  unfold back
  split_ifs <;> omega

theorem back_oldest (h : pos < n) : back n pos (n - 1) = next n pos := by
  unfold back next
  split_ifs <;> omega

/-- Every slot lies some number of places before the position. -/
theorem exists_back {i : Nat} (h : pos < n) (hi : i < n) : ∃ k, k < n ∧ back n pos k = i := by
  rcases Nat.le_total i pos with hle | hle
  · refine ⟨pos - i, by omega, ?_⟩
    unfold back
    split_ifs <;> omega
  · rcases Nat.eq_or_lt_of_le hle with rfl | hlt
    · exact ⟨0, by omega, back_zero⟩
    · refine ⟨pos + n - i, by omega, ?_⟩
      unfold back
      split_ifs <;> omega

end Position

end Ring
