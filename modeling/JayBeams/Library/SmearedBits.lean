import Mathlib.Data.Nat.Bits
import Mathlib.Order.Bounds.Defs
import Mathlib.Order.Nat
import Mathlib.Algebra.Group.Nat.Defs

/-!
# Smeared bits

A number is smeared over `k` places when each of its bits is copied to the `k - 1` places below it. A
shift by `k` and an `or` double `k`, so that `m` of them smear over `2 ^ m` places
(`Smeared.smear`). A number below `2 ^ w` smeared over `w` places has all the bits below its highest
one set, which makes it one less than a power of two (`Smeared.eq_two_pow_sub_one`), the smallest one
above the number (`isLeast_two_pow`).
-/

set_option autoImplicit false

namespace SmearedBits

/-- Each bit of `x` is set if one of the `k` bits of `n` from its place on is. -/
def Smeared (k n x : Nat) : Prop :=
  ∀ j, x.testBit j = true ↔ ∃ d < k, n.testBit (j + d) = true

theorem Smeared.refl (n : Nat) : Smeared 1 n n := by
  intro j
  constructor
  · intro h
    exact ⟨0, Nat.one_pos, h⟩
  · rintro ⟨d, hd, h⟩
    obtain rfl : d = 0 := Nat.lt_one_iff.1 hd
    exact h

/-- A shift by as many bits as are smeared doubles them: a bit is among the first `k` places, or among
the next `k`, which the shift brings there. -/
theorem Smeared.or_shiftRight {k n x : Nat} (h : Smeared k n x) : Smeared (2 * k) n (x ||| x >>> k) := by
  intro j
  rw [Nat.testBit_or, Nat.testBit_shiftRight, Bool.or_eq_true, h j, h (k + j)]
  constructor
  · rintro (⟨d, hd, hbit⟩ | ⟨d, hd, hbit⟩)
    · exact ⟨d, by omega, hbit⟩
    · exact ⟨k + d, by omega, by rwa [show j + (k + d) = k + j + d by omega]⟩
  · rintro ⟨d, hd, hbit⟩
    rcases Nat.lt_or_ge d k with hlt | hge
    · exact Or.inl ⟨d, hlt, hbit⟩
    · exact Or.inr ⟨d - k, by omega, by rwa [show k + j + (d - k) = j + d by omega]⟩

/-- When all bits below the highest one are set, what is left to the next power of two is one. The
highest bit of `n` is near enough to be smeared to every place below it. -/
theorem Smeared.eq_two_pow_sub_one {w n x : Nat} (h : Smeared w n x) (hn : n ≠ 0) (hw : n < 2 ^ w) :
    x = 2 ^ (n.log2 + 1) - 1 := by
  apply Nat.eq_of_testBit_eq
  intro j
  rw [Nat.testBit_two_pow_sub_one, Bool.eq_iff_iff, decide_eq_true_eq, h j]
  constructor
  · rintro ⟨d, -, hbit⟩
    have hle := Nat.ge_two_pow_of_testBit hbit
    have hlog := (Nat.le_log2 hn).2 hle
    omega
  · intro hj
    have hlog : n.log2 < w := (Nat.log2_lt hn).2 hw
    refine ⟨n.log2 - j, by omega, ?_⟩
    rw [show j + (n.log2 - j) = n.log2 by omega]
    exact Nat.testBit_log2 hn

/-- Shifts by one, two, four and so on, `m` of them, each followed by an `or`. -/
def smear : Nat → Nat → Nat
  | 0, n => n
  | m + 1, n => smear m n ||| smear m n >>> 2 ^ m

theorem Smeared.smear (m n : Nat) : Smeared (2 ^ m) n (smear m n) := by
  induction m with
  | zero => exact Smeared.refl n
  | succ m ih =>
      rw [Nat.pow_succ, Nat.mul_comm]
      exact ih.or_shiftRight

/-- Zero has no highest bit and is smeared to itself. -/
theorem Smeared.eq_zero {k x : Nat} (h : Smeared k 0 x) : x = 0 := by
  apply Nat.eq_of_testBit_eq
  intro j
  rw [Bool.eq_iff_iff, h j]
  simp

/-- The powers of two above a number. -/
def PowersAbove (n : Nat) : Set Nat := {p | (∃ k, p = 2 ^ k) ∧ n < p}

theorem isLeast_two_pow {n : Nat} (hn : n ≠ 0) : IsLeast (PowersAbove n) (2 ^ (n.log2 + 1)) := by
  refine ⟨⟨⟨n.log2 + 1, rfl⟩, Nat.lt_log2_self⟩, ?_⟩
  rintro p ⟨⟨k, rfl⟩, hlt⟩
  apply Nat.pow_le_pow_right Nat.two_pos
  exact (Nat.log2_lt hn).2 hlt

theorem isLeast_one : IsLeast (PowersAbove 0) 1 :=
  ⟨⟨⟨0, rfl⟩, Nat.one_pos⟩, fun _ hp => hp.2⟩

/-- One more than a smeared number is the smallest power of two above it. -/
theorem Smeared.isLeast {w n x : Nat} (h : Smeared w n x) (hw : n < 2 ^ w) :
    IsLeast (PowersAbove n) (1 + x) := by
  by_cases hn : n = 0
  · subst hn
    rw [h.eq_zero]
    exact isLeast_one
  · have hpos : 0 < 2 ^ (n.log2 + 1) := Nat.two_pow_pos _
    rw [h.eq_two_pow_sub_one hn hw, Nat.add_sub_cancel' hpos]
    exact isLeast_two_pow hn

/-- The smallest power of two above a number is within the width exactly below the highest place: a
power of two below the top is at most half of it. -/
theorem Smeared.lt_two_pow_iff {w n x : Nat} (h : Smeared (w + 1) n x) (hw : n < 2 ^ (w + 1)) :
    1 + x < 2 ^ (w + 1) ↔ n < 2 ^ w := by
  have hleast := h.isLeast hw
  constructor
  · intro hlt
    obtain ⟨⟨k, hk⟩, hn⟩ := hleast.1
    rw [hk] at hlt hn
    have hkw : k < w + 1 := (Nat.pow_lt_pow_iff_right (by decide)).1 hlt
    exact Nat.lt_of_lt_of_le hn (Nat.pow_le_pow_right Nat.two_pos (Nat.lt_succ_iff.1 hkw))
  · intro hlt
    have hle : 1 + x ≤ 2 ^ w := hleast.2 ⟨⟨w, rfl⟩, hlt⟩
    exact Nat.lt_of_le_of_lt hle (Nat.pow_lt_pow_succ (by decide))

end SmearedBits
