import JayBeams.Library.SmearedBits
import Mathlib.Tactic.SplitIfs

/-!
# Powers of two above a number

`p2ceil` sets all the bits below the highest bit of a number by a series of shifts and adds one, which
gives the smallest power of two larger than the number (`p2ceil_toNat`).
-/

set_option autoImplicit false

namespace JayBeams

/-- `p2ceil_kernel` -/
def p2ceilKernel (shift n : UInt64) : UInt64 := n ||| (n >>> shift)

/-- `p2ceil`, for a 64-bit integer -/
def p2ceil (n : UInt64) : UInt64 :=
  1 + p2ceilKernel 32 (p2ceilKernel 16 (p2ceilKernel 8 (p2ceilKernel 4
    (p2ceilKernel 2 (p2ceilKernel 1 n)))))

/-- Each bit of `x` is set if one of the `k` bits of `n` from its place on is. -/
def Smeared (k : Nat) (n x : UInt64) : Prop :=
  ∀ j, x.toNat.testBit j = true ↔ ∃ d < k, n.toNat.testBit (j + d) = true

theorem smeared_self (n : UInt64) : Smeared 1 n n := SmearedBits.Smeared.refl n.toNat

/-- A shift by as many bits as are smeared doubles them. -/
theorem Smeared.kernel {k : Nat} {n x shift : UInt64} (h : Smeared k n x)
    (hshift : shift.toNat % 64 = k) : Smeared (2 * k) n (p2ceilKernel shift x) := by
  intro j
  rw [p2ceilKernel, UInt64.toNat_or, UInt64.toNat_shiftRight, hshift]
  exact SmearedBits.Smeared.or_shiftRight h j

/-- When all bits below the highest one are set, what is left to the next power of two is one. -/
theorem Smeared.toNat_eq {n x : UInt64} (h : Smeared 64 n x) (hn : n ≠ 0) :
    x.toNat = 2 ^ (n.toNat.log2 + 1) - 1 := by
  have hne : n.toNat ≠ 0 := fun h0 => hn (UInt64.toNat_inj.1 h0)
  exact SmearedBits.Smeared.eq_two_pow_sub_one h hne n.toNat_lt

/-- `p2ceil` is the smallest power of two larger than its argument. -/
theorem p2ceil_toNat {n : UInt64} (hn : n ≠ 0) (h : n.toNat < 2 ^ 63) :
    (p2ceil n).toNat = 2 ^ (n.toNat.log2 + 1) := by
  have hne : n.toNat ≠ 0 := fun h0 => hn (UInt64.toNat_inj.1 h0)
  have hsmeared : Smeared 64 n (p2ceilKernel 32 (p2ceilKernel 16 (p2ceilKernel 8 (p2ceilKernel 4
      (p2ceilKernel 2 (p2ceilKernel 1 n)))))) :=
    ((((((smeared_self n).kernel rfl).kernel rfl).kernel rfl).kernel rfl).kernel rfl).kernel rfl
  have hlog : n.toNat.log2 < 63 := (Nat.log2_lt hne).2 h
  have hlt : 2 ^ (n.toNat.log2 + 1) < 2 ^ 64 := Nat.pow_lt_pow_right (by decide) (by omega)
  have hpos : 0 < 2 ^ (n.toNat.log2 + 1) := Nat.two_pow_pos _
  rw [p2ceil, UInt64.toNat_add, hsmeared.toNat_eq hn, UInt64.toNat_one, Nat.add_sub_cancel' hpos]
  exact Nat.mod_eq_of_lt hlt

theorem lt_p2ceil {n : UInt64} (h : n.toNat < 2 ^ 63) : n.toNat < (p2ceil n).toNat := by
  by_cases hn : n = 0
  · rw [hn]
    decide
  · rw [p2ceil_toNat hn h]
    exact Nat.lt_log2_self

end JayBeams
