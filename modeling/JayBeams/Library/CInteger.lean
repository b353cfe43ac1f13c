import Mathlib.Algebra.Order.Ring.Int
import Mathlib.Algebra.Ring.Divisibility.Basic
import Mathlib.Tactic.Ring

/-!
# Integer types of C and C++

The integer types of 8, 16, 32 and 64 bits, with the promotion to `int`, the common type of the two
operands of an operation (`common`), the conversion to a type modulo its number of values (`convert`),
and the arithmetic operations of the types: unsigned results wrap, and a signed result outside its
type is undefined (`SignedOverflow`).

An operation whose operands are values of their types gives the exact result when the result is a
value of the common type (`add_exact`, `mul_exact`). Where the common type is unsigned a result is
exact up to a multiple of its modulus, which a conversion to a type that is not larger does not see
(`convert_eq_of_dvd`): a compound assignment to an accumulator gives the exact value when this is a
value of the type of the accumulator (`addProduct_exact`).
-/

set_option autoImplicit false

namespace CInteger

/-- The widths of the types -/
inductive Width where
  | w8
  | w16
  | w32
  | w64
  deriving DecidableEq, Repr

def Width.bits : Width → Nat
  | w8 => 8
  | w16 => 16
  | w32 => 32
  | w64 => 64

/-- An integer type -/
structure IntType where
  signed : Bool
  width : Width
  deriving DecidableEq, Repr

namespace IntType

/-- The type `int` -/
def int : IntType := ⟨true, .w32⟩

/-- The type `std::uint64_t` -/
def uint64 : IntType := ⟨false, .w64⟩

/-- The number of values -/
def modulus (t : IntType) : Int := 2 ^ t.width.bits

/-- The smallest value -/
def min (t : IntType) : Int := if t.signed then -2 ^ (t.width.bits - 1) else 0

/-- The largest value -/
def max (t : IntType) : Int := t.min + t.modulus - 1

/-- The values of the type -/
def InRange (t : IntType) (x : Int) : Prop := t.min ≤ x ∧ x ≤ t.max

instance (t : IntType) (x : Int) : Decidable (t.InRange x) := inferInstanceAs (Decidable (_ ∧ _))

/-- Conversion to the type: the value that differs by a multiple of the modulus -/
def convert (t : IntType) (x : Int) : Int := (x - t.min) % t.modulus + t.min

/-- The type after the integral promotions -/
def promote (t : IntType) : IntType :=
  if t.width.bits < int.width.bits then int else t

/-- The common type of two promoted types -/
def commonPromoted (s t : IntType) : IntType :=
  if s.signed = t.signed then (if s.width.bits < t.width.bits then t else s)
  else if s.signed then (if s.width.bits ≤ t.width.bits then t else s)
  else (if t.width.bits ≤ s.width.bits then s else t)

/-- The common type of two operands, after the usual arithmetic conversions -/
def common (s t : IntType) : IntType := commonPromoted s.promote t.promote

end IntType

/-- The result of a signed operation is not a value of its type, which is undefined behavior. -/
inductive SignedOverflow where
  | signedOverflow
  deriving DecidableEq, Repr

namespace IntType

/-- The result of an operation in a type, from the exact one -/
def result (t : IntType) (x : Int) : Except SignedOverflow Int :=
  if t.signed = true ∧ ¬ t.InRange x then .error .signedOverflow else .ok (t.convert x)

/-- `x + y` -/
def add (s t : IntType) (x y : Int) : Except SignedOverflow Int :=
  (common s t).result ((common s t).convert x + (common s t).convert y)

/-- `x * y` -/
def mul (s t : IntType) (x y : Int) : Except SignedOverflow Int :=
  (common s t).result ((common s t).convert x * (common s t).convert y)

/-- `x / y`, for a divisor other than zero -/
def div (s t : IntType) (x y : Int) : Except SignedOverflow Int :=
  (common s t).result (((common s t).convert x).tdiv ((common s t).convert y))

/-- `acc += x * y`, for an accumulator of type `a` -/
def addProduct (a s t : IntType) (acc x y : Int) : Except SignedOverflow Int := do
  let product ← mul s t x y
  let sum ← add a (common s t) acc product
  return a.convert sum

/-! ## Conversions -/

section Convert

variable {t : IntType} {x y : Int}

theorem modulus_pos (t : IntType) : 0 < t.modulus := pow_pos (by decide) _

theorem convert_of_inRange (h : t.InRange x) : t.convert x = x := by
  obtain ⟨hlo, hhi⟩ := h
  rw [max] at hhi
  rw [convert, Int.emod_eq_of_lt (by omega) (by omega), Int.sub_add_cancel]

theorem inRange_convert (t : IntType) (x : Int) : t.InRange (t.convert x) := by
  have hpos := t.modulus_pos
  have hlo := Int.emod_nonneg (x - t.min) hpos.ne'
  have hhi := Int.emod_lt_of_pos (x - t.min) hpos
  rw [InRange, max, convert]
  omega

/-- A conversion changes a number by a multiple of the modulus. -/
theorem dvd_convert_sub (t : IntType) (x : Int) : t.modulus ∣ t.convert x - x := by
  have h := Int.emod_add_mul_ediv (x - t.min) t.modulus
  refine ⟨-((x - t.min) / t.modulus), ?_⟩
  rw [convert, mul_neg]
  omega

/-- The value of the type that differs by a multiple of the modulus is the conversion. -/
theorem convert_eq_of_dvd (h : t.InRange x) (hdvd : t.modulus ∣ y - x) : t.convert y = x := by
  -- Both numbers have the same rest, and the conversion only sees the rest.
  have hmod : (y - t.min) % t.modulus = (x - t.min) % t.modulus := by
    apply Int.emod_eq_emod_iff_emod_sub_eq_zero.2
    apply Int.emod_eq_zero_of_dvd
    rwa [sub_sub_sub_cancel_right]
  rw [convert, hmod]
  exact convert_of_inRange h

theorem min_of_unsigned (h : t.signed = false) : t.min = 0 := by
  rw [min, h]
  rfl

theorem min_nonpos (t : IntType) : t.min ≤ 0 := by
  rw [min]
  split
  · exact neg_nonpos.2 (pow_nonneg (by decide) _)
  · exact le_refl 0

theorem inRange_of_nonneg (h : t.InRange x) (hy : 0 ≤ y) (hyx : y ≤ x) : t.InRange y := by
  exact ⟨t.min_nonpos.trans hy, hyx.trans h.2⟩

end Convert

theorem zero_inRange (t : IntType) : t.InRange 0 := by
  obtain ⟨tsigned, twidth⟩ := t
  cases tsigned <;> cases twidth <;> decide

/-! ## The common type -/

section Common

variable {s t : IntType} {x y : Int}

/-- The common type is at least as wide as its operands, and wider than an unsigned operand when it is
signed. -/
theorem common_width (s t : IntType) :
    s.width.bits ≤ (common s t).width.bits ∧ t.width.bits ≤ (common s t).width.bits ∧
      ((common s t).signed = true →
        (s.signed = false → s.width.bits < (common s t).width.bits) ∧
          (t.signed = false → t.width.bits < (common s t).width.bits)) := by
  obtain ⟨ssigned, swidth⟩ := s
  obtain ⟨tsigned, twidth⟩ := t
  cases ssigned <;> cases swidth <;> cases tsigned <;> cases twidth <;> decide

/-- The type of a product is the one of its sum with an accumulator of the type of a factor. -/
theorem common_common (s t : IntType) : common s (common s t) = common s t := by
  obtain ⟨ssigned, swidth⟩ := s
  obtain ⟨tsigned, twidth⟩ := t
  cases ssigned <;> cases swidth <;> cases tsigned <;> cases twidth <;> rfl

theorem common_int_common (s : IntType) : common (common s s) int = common s s := by
  obtain ⟨ssigned, swidth⟩ := s
  cases ssigned <;> cases swidth <;> rfl

theorem common_uint64 (s : IntType) : common s uint64 = uint64 := by
  obtain ⟨ssigned, swidth⟩ := s
  cases ssigned <;> cases swidth <;> rfl

/-- The values of a type are values of a signed type that is wide enough. -/
theorem InRange.widen (h : s.InRange x) (ht : t.signed = true)
    (hle : s.width.bits ≤ t.width.bits) (hlt : s.signed = false → s.width.bits < t.width.bits) :
    t.InRange x := by
  have hpos : 0 < t.width.bits := by cases t.width <;> decide
  -- A signed type has one bit less for the size of a number than its width.
  have htop : (2 : Int) ^ t.width.bits = 2 ^ (t.width.bits - 1) * 2 := by
    rw [← pow_succ, Nat.sub_add_cancel hpos]
  have hmin : t.min = -2 ^ (t.width.bits - 1) := by rw [min, ht]; rfl
  obtain ⟨hlo, hhi⟩ := h
  rw [max, modulus] at hhi
  rw [InRange, max, modulus, htop, hmin]
  cases hs : s.signed with
  | false =>
      have hmono : (2 : Int) ^ s.width.bits ≤ 2 ^ (t.width.bits - 1) :=
        pow_le_pow_right₀ (by decide) (Nat.le_sub_one_of_lt (hlt hs))
      rw [min_of_unsigned hs] at hlo hhi
      omega
  | true =>
      have hspos : 0 < s.width.bits := by cases s.width <;> decide
      have hstop : (2 : Int) ^ s.width.bits = 2 ^ (s.width.bits - 1) * 2 := by
        rw [← pow_succ, Nat.sub_add_cancel hspos]
      have hsmin : s.min = -2 ^ (s.width.bits - 1) := by rw [min, hs]; rfl
      have hmono : (2 : Int) ^ (s.width.bits - 1) ≤ 2 ^ (t.width.bits - 1) :=
        pow_le_pow_right₀ (by decide) (Nat.sub_le_sub_right hle 1)
      rw [hsmin] at hlo hhi
      rw [hstop] at hhi
      omega

theorem InRange.common_left (h : s.InRange x) (hsigned : (common s t).signed = true) :
    (common s t).InRange x :=
  h.widen hsigned (common_width s t).1 ((common_width s t).2.2 hsigned).1

theorem InRange.common_right (h : t.InRange x) (hsigned : (common s t).signed = true) :
    (common s t).InRange x :=
  h.widen hsigned (common_width s t).2.1 ((common_width s t).2.2 hsigned).2

theorem modulus_dvd_common (s t : IntType) : s.modulus ∣ (common s t).modulus :=
  pow_dvd_pow 2 (common_width s t).1

end Common

/-! ## Operations -/

section Operations

variable {s t : IntType} {x y acc : Int}

theorem result_of_inRange (h : t.InRange x) : t.result x = .ok x := by
  rw [result, if_neg (fun hout => hout.2 h), convert_of_inRange h]

theorem result_of_unsigned (h : t.signed = false) (x : Int) : t.result x = .ok (t.convert x) := by
  rw [result, if_neg]
  rintro ⟨hsigned, -⟩
  rw [h] at hsigned
  cases hsigned

/-- A sum of conversions differs from the sum by a multiple of the modulus. -/
theorem dvd_convert_add (t : IntType) (x y : Int) :
    t.modulus ∣ t.convert x + t.convert y - (x + y) := by
  rw [add_sub_add_comm]
  exact dvd_add (t.dvd_convert_sub x) (t.dvd_convert_sub y)

theorem dvd_convert_mul (t : IntType) (x y : Int) :
    t.modulus ∣ t.convert x * t.convert y - x * y := by
  have hsplit : t.convert x * t.convert y - x * y =
      (t.convert x - x) * t.convert y + x * (t.convert y - y) := by ring
  rw [hsplit]
  exact dvd_add (Dvd.dvd.mul_right (t.dvd_convert_sub x) _) (Dvd.dvd.mul_left (t.dvd_convert_sub y) _)

/-- A sum is exact when it is a value of the common type. -/
theorem add_exact (hx : s.InRange x) (hy : t.InRange y) (h : (common s t).InRange (x + y)) :
    add s t x y = .ok (x + y) := by
  cases hsigned : (common s t).signed with
  | false =>
      rw [add, result_of_unsigned hsigned]
      exact congrArg _ (convert_eq_of_dvd h (dvd_convert_add _ x y))
  | true =>
      rw [add, convert_of_inRange (hx.common_left hsigned), convert_of_inRange (hy.common_right hsigned)]
      exact result_of_inRange h

/-- A product is exact when it is a value of the common type. -/
theorem mul_exact (hx : s.InRange x) (hy : t.InRange y) (h : (common s t).InRange (x * y)) :
    mul s t x y = .ok (x * y) := by
  cases hsigned : (common s t).signed with
  | false =>
      rw [mul, result_of_unsigned hsigned]
      exact congrArg _ (convert_eq_of_dvd h (dvd_convert_mul _ x y))
  | true =>
      rw [mul, convert_of_inRange (hx.common_left hsigned), convert_of_inRange (hy.common_right hsigned)]
      exact result_of_inRange h

/-- An accumulator of the type of a factor is exact when its new value is a value of its type, and the
product of one of the common type where this is signed. -/
theorem addProduct_exact (hacc : s.InRange acc) (hx : s.InRange x) (hy : t.InRange y)
    (hproduct : (common s t).signed = true → (common s t).InRange (x * y))
    (h : s.InRange (acc + x * y)) : addProduct s s t acc x y = .ok (acc + x * y) := by
  rw [addProduct]
  cases hsigned : (common s t).signed with
  | true =>
      -- Signed operations must not leave their type, so every intermediate is in range.
      have hsum : (common s (common s t)).InRange (acc + x * y) := by
        rw [common_common]
        exact h.common_left hsigned
      rw [mul_exact hx hy (hproduct hsigned)]
      show (add s (common s t) acc (x * y) >>= fun sum => .ok (s.convert sum)) = _
      rw [add_exact hacc (hproduct hsigned) hsum]
      exact congrArg Except.ok (convert_of_inRange h)
  | false =>
      rw [mul, result_of_unsigned hsigned]
      show (add s (common s t) acc _ >>= fun sum => .ok (s.convert sum)) = _
      rw [add, common_common, result_of_unsigned hsigned]
      -- what the unsigned operations lose is a multiple of the modulus of the accumulator
      refine congrArg Except.ok (convert_eq_of_dvd h (dvd_trans (modulus_dvd_common s t) ?_))
      generalize common s t = c
      have hmul := dvd_convert_mul c x y
      have hconv := c.dvd_convert_sub (c.convert x * c.convert y)
      have hsum := dvd_convert_add c acc (c.convert (c.convert x * c.convert y))
      have hlast := c.dvd_convert_sub
        (c.convert acc + c.convert (c.convert (c.convert x * c.convert y)))
      have htotal := dvd_add (dvd_add hlast hsum) (dvd_add hconv hmul)
      rw [sub_add_sub_cancel] at htotal
      convert htotal using 1
      ring

theorem int_le_common_self (s : IntType) : 2 ≤ (common s s).max := by
  obtain ⟨ssigned, swidth⟩ := s
  cases ssigned <;> cases swidth <;> decide

/-- Half of a value of a promoted type, towards zero -/
theorem div_two (h : (common s s).InRange x) : div (common s s) int x 2 = .ok (x.tdiv 2) := by
  -- The divisor is converted as well, and two is a value of every promoted type.
  have htwo : (common s s).InRange 2 := by
    have hmin := (common s s).min_nonpos
    exact ⟨by omega, int_le_common_self s⟩
  rw [div, common_int_common, convert_of_inRange h, convert_of_inRange htwo]
  apply result_of_inRange
  obtain ⟨hlo, hhi⟩ := h
  have hmin := (common s s).min_nonpos
  rcases le_total 0 x with hx | hx
  · rw [Int.tdiv_eq_ediv_of_nonneg hx]
    exact ⟨by omega, by omega⟩
  · obtain ⟨y, rfl⟩ : ∃ y, x = -y := ⟨-x, (neg_neg x).symm⟩
    rw [Int.neg_tdiv, Int.tdiv_eq_ediv_of_nonneg (by omega)]
    have hmax := int_le_common_self s
    exact ⟨by omega, by omega⟩

/-- Division in the largest unsigned type -/
theorem div_uint64 (x : Int) {y : Int} (hy : uint64.InRange y) :
    div s uint64 x y = .ok (uint64.convert x / y) := by
  have hnonneg := (uint64.inRange_convert x).1
  rw [div, common_uint64, convert_of_inRange hy, Int.tdiv_eq_ediv_of_nonneg hnonneg]
  apply result_of_inRange
  have hle : uint64.convert x / y ≤ uint64.convert x := Int.ediv_le_self y hnonneg
  exact inRange_of_nonneg (uint64.inRange_convert x) (Int.ediv_nonneg hnonneg hy.1) hle

end Operations

end IntType

end CInteger
