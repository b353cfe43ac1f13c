import JayBeams.Itch5.ShortStringField
import JayBeams.OpenCL.WorkgroupSize

/-!
# `p2ceil` for every width

The overloads of `p2ceil` for integers of 8, 16, 32 and 64 bits differ in the number of shifts only.
Each of them smears its argument over its whole width and adds one, which is the smallest power of two
above the argument as long as it has a place in the width. The documented range goes up to the highest
power of two itself. There the addition wraps, and the result is zero (`p2ceil_top`).
-/

set_option autoImplicit false

namespace JayBeams.P2Ceil

open SmearedBits

/-- `p2ceil_kernel` -/
def kernel {w : Nat} (shift : Nat) (n : BitVec w) : BitVec w := n ||| (n >>> shift)

/-- `p2ceil`, for a 64-bit integer -/
def p2ceil64 (n : BitVec 64) : BitVec 64 :=
  1 + kernel 32 (kernel 16 (kernel 8 (kernel 4 (kernel 2 (kernel 1 n)))))

/-- `p2ceil`, for a 32-bit integer -/
def p2ceil32 (n : BitVec 32) : BitVec 32 :=
  1 + kernel 16 (kernel 8 (kernel 4 (kernel 2 (kernel 1 n))))

/-- `p2ceil`, for a 16-bit integer; the sum is an `int`, converted to the type of the result -/
def p2ceil16 (n : BitVec 16) : BitVec 16 :=
  1 + kernel 8 (kernel 4 (kernel 2 (kernel 1 n)))

/-- `p2ceil`, for an 8-bit integer -/
def p2ceil8 (n : BitVec 8) : BitVec 8 := 1 + kernel 4 (kernel 2 (kernel 1 n))

/-- The types that `p2ceil` is overloaded for. -/
inductive UnsignedType where
  | uint8
  | uint16
  | uint32
  | uint64
  deriving DecidableEq, Repr

namespace UnsignedType

/-- The number of shifts. -/
def shifts : UnsignedType → Nat
  | uint8 => 3
  | uint16 => 4
  | uint32 => 5
  | uint64 => 6

/-- The width of the type. -/
def bits (t : UnsignedType) : Nat := 2 ^ t.shifts

/-- `p2ceil` -/
def p2ceil : (t : UnsignedType) → BitVec t.bits → BitVec t.bits
  | uint8 => p2ceil8
  | uint16 => p2ceil16
  | uint32 => p2ceil32
  | uint64 => p2ceil64

end UnsignedType

/-! ## The value of `p2ceil` -/

theorem kernel_toNat {w : Nat} (shift : Nat) (n : BitVec w) :
    (kernel shift n).toNat = n.toNat ||| n.toNat >>> shift := by
  rw [kernel, BitVec.toNat_or, BitVec.toNat_ushiftRight]

theorem p2ceil_toNat_eq (t : UnsignedType) (n : BitVec t.bits) :
    (t.p2ceil n).toNat = (1 + smear t.shifts n.toNat) % 2 ^ t.bits := by
  cases t with
  | uint8 =>
      show (p2ceil8 n).toNat = _
      simp only [p2ceil8, BitVec.toNat_add, kernel_toNat]
      rfl
  | uint16 =>
      show (p2ceil16 n).toNat = _
      simp only [p2ceil16, BitVec.toNat_add, kernel_toNat]
      rfl
  | uint32 =>
      show (p2ceil32 n).toNat = _
      simp only [p2ceil32, BitVec.toNat_add, kernel_toNat]
      rfl
  | uint64 =>
      show (p2ceil64 n).toNat = _
      simp only [p2ceil64, BitVec.toNat_add, kernel_toNat]
      rfl

/-- The overload for 64 bits is the one that the sizes in the program are computed with. -/
theorem p2ceil_toBitVec (n : UInt64) : (JayBeams.p2ceil n).toBitVec = p2ceil64 n.toBitVec := by
  rfl

/-- What `p2ceil` promises of a number in its range. -/
structure SmallestPower (t : UnsignedType) (n : BitVec t.bits) : Prop where
  /-- the result is the smallest power of two larger than the number -/
  least : IsLeast (PowersAbove n.toNat) (t.p2ceil n).toNat
  /-- the last addition does not wrap -/
  exact_sum : (t.p2ceil n).toNat = 1 + smear t.shifts n.toNat
  /-- a size that is computed with `p2ceil` is not zero -/
  size_ne_zero : (t.p2ceil n).toNat ≠ 0
  /-- nor is half of it, for more than one element -/
  half_ne_zero : 1 < n.toNat → (t.p2ceil n).toNat / 2 ≠ 0

section

variable {t : UnsignedType} {n : BitVec t.bits}

theorem bits_eq_succ (t : UnsignedType) : t.bits = t.bits - 1 + 1 :=
  (Nat.sub_add_cancel (Nat.two_pow_pos t.shifts)).symm

/-- The shifts of an overload smear its argument over the whole width. -/
theorem smeared_smear : SmearedBits.Smeared t.bits n.toNat (smear t.shifts n.toNat) :=
  SmearedBits.Smeared.smear t.shifts n.toNat

/-- The last addition stays within the width exactly below the highest power of two. -/
theorem sum_lt_iff : 1 + smear t.shifts n.toNat < 2 ^ t.bits ↔ n.toNat < 2 ^ (t.bits - 1) := by
  have hsmeared := smeared_smear (t := t) (n := n)
  have hlt := n.isLt
  -- The width is split off its last bit, which is the one that an overflow needs.
  generalize n.toNat = m at hsmeared hlt ⊢
  rw [bits_eq_succ t] at hsmeared hlt ⊢
  exact hsmeared.lt_two_pow_iff hlt

theorem smallestPower_of_lt (h : n.toNat < 2 ^ (t.bits - 1)) : SmallestPower t n := by
  have hsum : (t.p2ceil n).toNat = 1 + smear t.shifts n.toNat := by
    rw [p2ceil_toNat_eq, Nat.mod_eq_of_lt (sum_lt_iff.2 h)]
  have hleast : IsLeast (PowersAbove n.toNat) (t.p2ceil n).toNat :=
    hsum ▸ smeared_smear.isLeast n.isLt
  have habove : n.toNat < (t.p2ceil n).toNat := hleast.1.2
  exact ⟨hleast, hsum, by omega, by omega⟩

/-- At the highest power of two of the width the last addition wraps to zero. -/
theorem p2ceil_top (h : n.toNat = 2 ^ (t.bits - 1)) : (t.p2ceil n).toNat = 0 := by
  have hlt := n.isLt
  have hne : n.toNat ≠ 0 := by
    rw [h]
    exact Nat.ne_of_gt (Nat.two_pow_pos _)
  rw [p2ceil_toNat_eq, smeared_smear.eq_two_pow_sub_one hne hlt, h, Nat.log2_two_pow, ← bits_eq_succ,
    Nat.add_sub_cancel' (Nat.two_pow_pos _), Nat.mod_self]

end

/-! ## The sizes computed with `p2ceil` -/

/-- The buffer of a short string field. -/
theorem bufferSize_eq (wireSize : Nat) :
    Itch5.bufferSize wireSize = (UnsignedType.uint64.p2ceil (BitVec.ofNat 64 wireSize)).toNat := by
  rfl

/-- The workgroup of a pass that has less elements than the workgroup before it. -/
theorem passWorkgroupSize_eq {passOutputSize workgroupSize : Nat}
    (h : passOutputSize < workgroupSize) :
    OpenCL.passWorkgroupSize passOutputSize workgroupSize =
      (UnsignedType.uint64.p2ceil (BitVec.ofNat 64 passOutputSize)).toNat / 2 := by
  rw [OpenCL.passWorkgroupSize, if_pos h]
  rfl

theorem toNat_ofNat_size {size : Nat} (h : size ≤ 2 ^ 63) : (BitVec.ofNat 64 size).toNat = size := by
  rw [BitVec.toNat_ofNat]
  exact Nat.mod_eq_of_lt (Nat.lt_of_le_of_lt h (by decide))

theorem smallestPower_size {size : Nat} (h : size < 2 ^ 63) :
    SmallestPower .uint64 (BitVec.ofNat 64 size) := by
  apply smallestPower_of_lt
  have hsize := toNat_ofNat_size (Nat.le_of_lt h)
  exact Nat.lt_of_le_of_lt (Nat.le_of_eq hsize) h

theorem p2ceil_size_top : (UnsignedType.uint64.p2ceil (BitVec.ofNat 64 (2 ^ 63))).toNat = 0 :=
  p2ceil_top (t := .uint64) (toNat_ofNat_size (Nat.le_refl _))

theorem bufferSize_ne_zero_iff {wireSize : Nat} (h : wireSize ≤ 2 ^ 63) :
    Itch5.bufferSize wireSize ≠ 0 ↔ wireSize ≠ 2 ^ 63 := by
  rw [bufferSize_eq]
  constructor
  · intro hne htop
    subst htop
    exact hne p2ceil_size_top
  · intro hne
    exact (smallestPower_size (Nat.lt_of_le_of_ne h hne)).size_ne_zero

theorem passWorkgroupSize_ne_zero_iff {passOutputSize workgroupSize : Nat} (hpos : 1 < passOutputSize)
    (h : passOutputSize ≤ 2 ^ 63) (hlt : passOutputSize < workgroupSize) :
    OpenCL.passWorkgroupSize passOutputSize workgroupSize ≠ 0 ↔ passOutputSize ≠ 2 ^ 63 := by
  rw [passWorkgroupSize_eq hlt]
  constructor
  · intro hne htop
    subst htop
    rw [p2ceil_size_top] at hne
    exact hne rfl
  · intro hne
    have hsmallest := smallestPower_size (Nat.lt_of_le_of_ne h hne)
    -- Half of the power of two is the size of the workgroup.
    apply hsmallest.half_ne_zero
    exact Nat.lt_of_lt_of_eq hpos (toNat_ofNat_size h).symm

/-- In its documented range `p2ceil` keeps its promise exactly below the highest power of two, in every
width. The sizes that the program computes with it are zero exactly there. -/
theorem smallestPower_iff (t : UnsignedType) (n : BitVec t.bits) (h : n.toNat ≤ 2 ^ (t.bits - 1)) :
    (SmallestPower t n ↔ n.toNat ≠ 2 ^ (t.bits - 1)) ∧
      (∀ wireSize, wireSize ≤ 2 ^ 63 → (Itch5.bufferSize wireSize ≠ 0 ↔ wireSize ≠ 2 ^ 63)) ∧
      (∀ passOutputSize workgroupSize, 1 < passOutputSize → passOutputSize ≤ 2 ^ 63 →
        passOutputSize < workgroupSize →
        (OpenCL.passWorkgroupSize passOutputSize workgroupSize ≠ 0 ↔ passOutputSize ≠ 2 ^ 63)) := by
  refine ⟨⟨?_, ?_⟩, fun wireSize hsize => bufferSize_ne_zero_iff hsize, ?_⟩
  · intro hsmallest htop
    exact hsmallest.size_ne_zero (p2ceil_top htop)
  · intro hne
    exact smallestPower_of_lt (Nat.lt_of_le_of_ne h hne)
  · intro passOutputSize workgroupSize hpos hle hlt
    exact passWorkgroupSize_ne_zero_iff hpos hle hlt

theorem smallestPower_iff_at_100 : SmallestPower .uint8 100 ↔ (100 : BitVec 8).toNat ≠ 2 ^ 7 :=
  (smallestPower_iff .uint8 100 (by decide)).1

/-- The highest power of two of an 8-bit integer is in the documented range, and its `p2ceil` is zero. -/
theorem not_smallestPower_128 :
    ¬ ∀ (t : UnsignedType) (n : BitVec t.bits), n.toNat ≤ 2 ^ (t.bits - 1) → SmallestPower t n := by
  intro h
  have hrange : (128 : BitVec 8).toNat ≤ 2 ^ 7 := by decide
  have hzero : (UnsignedType.uint8.p2ceil (128 : BitVec 8)).toNat = 0 := by decide
  exact (h .uint8 128 hrange).size_ne_zero hzero

end JayBeams.P2Ceil
