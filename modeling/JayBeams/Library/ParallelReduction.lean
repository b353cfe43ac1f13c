import Mathlib.Algebra.BigOperators.Intervals
import Mathlib.Algebra.BigOperators.Group.Finset.Basic

/-!
# Parallel reductions

The combination of many values of a commutative monoid by groups of threads. Each thread of a group
takes the values at its own place and at a fixed stride from it; together the threads of all groups
take every value once (`prod_strided`). A group then halves its values, each of the first half taking
in its partner of the second half, which keeps the product (`prod_halved`).

`foldlM_range` is the rule for a counted loop that may fail: what each iteration carries on holds at
the end.
-/

set_option autoImplicit false

universe u v

open Finset

namespace ParallelReduction

/-! ## Counted loops -/

section Loop

variable {ε : Type u} {σ : Type v}

/-- A loop over `0, ..., n - 1` whose iterations succeed from states that satisfy the invariant. -/
theorem foldlM_range {f : σ → Nat → Except ε σ} (Inv : Nat → σ → Prop) {n : Nat} {s : σ}
    (hinit : Inv 0 s)
    (hstep : ∀ i, i < n → ∀ t, Inv i t → ∃ t', f t i = .ok t' ∧ Inv (i + 1) t') :
    ∃ t, (List.range n).foldlM f s = .ok t ∧ Inv n t := by
  induction n with
  | zero => exact ⟨s, rfl, hinit⟩
  | succ n ih =>
      obtain ⟨t, hrun, ht⟩ := ih fun i hi => hstep i (Nat.lt_succ_of_lt hi)
      obtain ⟨t', hlast, ht'⟩ := hstep n (Nat.lt_succ_self n) t ht
      refine ⟨t', ?_, ht'⟩
      rw [List.range_succ, List.foldlM_append, hrun]
      simp only [bind, Except.bind, List.foldlM_cons, List.foldlM_nil, hlast, pure, Except.pure]

end Loop

/-! ## Products over blocks -/

section Products

variable {M : Type u} [CommMonoid M]

/-- A counted loop that multiplies. -/
theorem foldlM_range_mul {ε : Type v} {f : M → Nat → Except ε M} {F : Nat → M} {n : Nat} (m : M)
    (hstep : ∀ i, i < n → ∀ p, f p i = .ok (p * F i)) :
    (List.range n).foldlM f m = .ok (m * ∏ i ∈ range n, F i) := by
  have hinit : m = m * ∏ j ∈ range 0, F j := by simp
  obtain ⟨p, hrun, hp⟩ := foldlM_range (fun i p => p = m * ∏ j ∈ range i, F j) hinit
    fun i hi p hp => by
      refine ⟨_, hstep i hi p, ?_⟩
      rw [hp, prod_range_succ, mul_assoc]
  rw [hrun, hp]

/-- A range is made of blocks. -/
theorem prod_blocks (f : Nat → M) (a b : Nat) :
    ∏ j ∈ range (a * b), f j = ∏ i ∈ range a, ∏ j ∈ range b, f (i * b + j) := by
  induction a with
  | zero => simp
  | succ a ih => rw [Nat.succ_mul, prod_range_add, ih, prod_range_succ]

/-- The threads of all groups, each with its values at a stride of the number of threads, take every
value once. -/
theorem prod_strided (f : Nat → M) (groups size steps : Nat) :
    ∏ g ∈ range groups, ∏ l ∈ range size, ∏ i ∈ range steps, f (g * size + l + i * (groups * size)) =
      ∏ j ∈ range (steps * (groups * size)), f j := by
  calc ∏ g ∈ range groups, ∏ l ∈ range size, ∏ i ∈ range steps,
        f (g * size + l + i * (groups * size))
      = ∏ t ∈ range (groups * size), ∏ i ∈ range steps, f (t + i * (groups * size)) :=
        (prod_blocks (fun t => ∏ i ∈ range steps, f (t + i * (groups * size))) groups size).symm
    _ = ∏ i ∈ range steps, ∏ t ∈ range (groups * size), f (t + i * (groups * size)) := prod_comm
    _ = ∏ i ∈ range steps, ∏ t ∈ range (groups * size), f (i * (groups * size) + t) := by
        simp only [Nat.add_comm]
    _ = ∏ j ∈ range (steps * (groups * size)), f j := (prod_blocks f steps (groups * size)).symm

/-- Places past the end do not count. -/
theorem prod_padded (f : Nat → M) {n m : Nat} (h : n ≤ m) :
    ∏ j ∈ range m, (if j < n then f j else 1) = ∏ j ∈ range n, f j := by
  obtain ⟨k, rfl⟩ := Nat.exists_eq_add_of_le h
  rw [prod_range_add]
  have hin : ∏ j ∈ range n, (if j < n then f j else 1) = ∏ j ∈ range n, f j :=
    prod_congr rfl fun j hj => if_pos (mem_range.1 hj)
  have hout : ∏ j ∈ range k, (if n + j < n then f (n + j) else 1) = 1 :=
    prod_eq_one fun j _ => if_neg (by omega)
  rw [hin, hout, mul_one]

/-- Taking in the second half keeps the product. -/
theorem prod_halved (f : Nat → M) (i : Nat) :
    ∏ j ∈ range i, f j * f (j + i) = ∏ j ∈ range (2 * i), f j := by
  rw [prod_mul_distrib, Nat.two_mul, prod_range_add]
  congr 1
  apply prod_congr rfl
  intro j _
  rw [Nat.add_comm]

end Products

end ParallelReduction
