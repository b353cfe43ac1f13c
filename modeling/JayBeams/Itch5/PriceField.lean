import JayBeams.Common
import Mathlib.Tactic.SplitIfs
import Mathlib.Algebra.Group.Nat.Defs

/-!
# Prices, price levels and quotes

Prices are fixed-point integers: `price4_t` counts ten-thousandths of a dollar in 32 bits,
`price8_t` hundred-millionths in 64 bits. A price level numbers the prices at which orders can be
quoted: every mill below one dollar, every penny above it. `priceLevels` counts the levels between
two prices and `levelToPrice` goes back.

The array-based book works on levels of `price4_t`. `level` and `levelPrice` are the two maps there
as total functions; they are inverse on quotable prices, monotone, and never raise in the range of
prices that the books accept.
-/

set_option autoImplicit false

namespace JayBeams.Itch5

/-- The parameters of the template `price_field`: the width of `wire_type` and `denom`. -/
structure PriceType where
  wireBits : Nat
  denom : Nat
  deriving DecidableEq, Repr

/-- `price4_t` -/
def price4 : PriceType := ⟨32, 10000⟩

/-- `price8_t` -/
def price8 : PriceType := ⟨64, 100000000⟩

/-- `max_price_field_value`, with its specialization for `price4_t`. -/
def maxPriceFieldValue (t : PriceType) : Nat :=
  if t = price4 then 200000 * 10000 else (2 ^ t.wireBits - 1) / t.denom * t.denom

/-- `price_field::dollar_price` -/
def dollarPrice (t : PriceType) : Nat := t.denom

/-- `price_levels`, to a bounded depth of recursion. -/
def priceLevelsRec (t : PriceType) : Nat → Nat → Nat → Except Failure Nat
  | 0, _, _ => .error .rangeError
  | depth + 1, lo, hi =>
      let unit := dollarPrice t
      let penny := t.denom / 100
      let mill := penny / 100
      if hi < lo then .error .rangeError
      -- the whole range is above one dollar
      else if unit ≤ lo then .ok ((hi - lo) / penny)
      -- the whole range is below one dollar
      else if hi ≤ unit then .ok ((hi - lo) / mill)
      else if lo = 0 then .ok (10000 + (hi - unit) / penny)
      else do
        let below ← priceLevelsRec t depth lo unit
        let above ← priceLevelsRec t depth unit hi
        return below + above

/-- `price_levels`: the recursive calls are for ranges on one side of a dollar. -/
def priceLevels (t : PriceType) (lo hi : Nat) : Except Failure Nat := priceLevelsRec t 2 lo hi

/-- `level_to_price`; the intermediate `rem` is an `int`, converted to the wire type at the end. -/
def levelToPrice (t : PriceType) (pLevel : Nat) : Except Failure Nat := do
  let maxLevel ← priceLevels t 0 (maxPriceFieldValue t)
  if pLevel > maxLevel then .error .rangeError
  else if pLevel ≤ t.denom then return pLevel
  else
    let rem := int32 (((pLevel - t.denom) * 100 + t.denom) % 2 ^ 64 : Nat)
    return (rem % (2 ^ t.wireBits : Nat)).toNat

theorem priceLevelsRec_one_side (t : PriceType) (depth : Nat) {lo hi : Nat}
    (h : dollarPrice t ≤ lo ∨ hi ≤ dollarPrice t) :
    priceLevelsRec t (depth + 1) lo hi = priceLevelsRec t 1 lo hi := by
  rcases h with h | h
  · simp only [priceLevelsRec, h, if_true]
  · simp only [priceLevelsRec, h, if_true]

/-- The depth of recursion of `price_levels` is at most two. -/
theorem priceLevelsRec_depth (t : PriceType) (depth lo hi : Nat) :
    priceLevelsRec t (depth + 2) lo hi = priceLevels t lo hi := by
  have hbelow : priceLevelsRec t (depth + 1) lo (dollarPrice t) = _ :=
    priceLevelsRec_one_side t depth (Or.inr (Nat.le_refl _))
  have habove : priceLevelsRec t (depth + 1) (dollarPrice t) hi = _ :=
    priceLevelsRec_one_side t depth (Or.inl (Nat.le_refl _))
  show priceLevelsRec t (depth + 1 + 1) lo hi = priceLevelsRec t (1 + 1) lo hi
  unfold priceLevelsRec
  simp only [hbelow, habove]

/-! ## Levels of `price4_t` -/

/-- The level of a price: the price itself up to one dollar, pennies above it. -/
def level (px : Nat) : Nat := if px ≤ 10000 then px else 10000 + (px - 10000) / 100

/-- The price of a level. -/
def levelPrice (l : Nat) : Nat := if l ≤ 10000 then l else (l - 10000) * 100 + 10000

/-- The level of the largest price, which is the price of the empty offer. -/
def levelMax : Nat := 20009900

/-- A price at which an order can be quoted: a whole number of pennies from one dollar on. -/
def TickAligned (px : Nat) : Prop := 10000 ≤ px → px % 100 = 0

instance (px : Nat) : Decidable (TickAligned px) := inferInstanceAs (Decidable (_ → _))

theorem priceLevels_price4 (px : Nat) : priceLevels price4 0 px = .ok (level px) := by
  show priceLevelsRec price4 (1 + 1) 0 px = _
  have hneg : ¬ px < 0 := Nat.not_lt_zero px
  have hunit : ¬ dollarPrice price4 ≤ 0 := by decide
  rw [priceLevelsRec]
  simp only [if_neg hneg, if_neg hunit, if_true]
  by_cases h : px ≤ dollarPrice price4
  · have h' : px ≤ 10000 := h
    rw [if_pos h, level, if_pos h']
    simp [price4]
  · have h' : ¬ px ≤ 10000 := h
    rw [if_neg h, level, if_neg h']
    rfl

theorem maxPriceFieldValue_price4 : maxPriceFieldValue price4 = 2000000000 := by decide

theorem level_maxPrice : level (maxPriceFieldValue price4) = levelMax := by decide

theorem levelToPrice_price4 {l : Nat} (h : l ≤ levelMax) :
    levelToPrice price4 l = .ok (levelPrice l) := by
  have hmax : ¬ l > levelMax := by omega
  simp only [levelToPrice, priceLevels_price4, level_maxPrice, bind, Except.bind, if_neg hmax,
    levelPrice]
  split
  · next hl => simp [price4] at hl; simp [hl, pure, Except.pure]
  · next hl =>
      have hl' : ¬ l ≤ 10000 := hl
      have hlt : (l - 10000) * 100 + 10000 < 2147483648 := by
        have h' : l ≤ 20009900 := h
        omega
      generalize hr : (l - 10000) * 100 + 10000 = rem at hlt
      have hmod : ((l - price4.denom) * 100 + price4.denom) % 2 ^ 64 = rem := by
        show ((l - 10000) * 100 + 10000) % 2 ^ 64 = rem
        rw [hr]
        exact Nat.mod_eq_of_lt (by omega)
      rw [hmod, int32_of_fits ⟨by omega, by omega⟩, if_neg hl']
      show Except.ok ((rem : Int) % ((2 ^ 32 : Nat) : Int)).toNat = Except.ok rem
      rw [← Int.natCast_emod, Int.toNat_natCast, Nat.mod_eq_of_lt (by omega)]

theorem levelPrice_level {px : Nat} (h : TickAligned px) : levelPrice (level px) = px := by
  unfold TickAligned at h
  unfold level levelPrice
  split_ifs <;> omega

theorem level_levelPrice (l : Nat) : level (levelPrice l) = l := by
  unfold level levelPrice
  split_ifs <;> omega

/-- A level is quoted at the lowest price of the level. -/
theorem levelPrice_le_iff {l px : Nat} : levelPrice l ≤ px ↔ l ≤ level px := by
  unfold level levelPrice
  split_ifs <;> omega

theorem levelPrice_lt_iff {l k : Nat} : levelPrice l < levelPrice k ↔ l < k := by
  unfold levelPrice
  split_ifs <;> omega

theorem levelPrice_injective {l k : Nat} (h : levelPrice l = levelPrice k) : l = k := by
  rw [← level_levelPrice l, h, level_levelPrice]

theorem level_mono {p q : Nat} (h : p ≤ q) : level p ≤ level q := by
  unfold level
  split_ifs <;> omega

theorem level_pos {px : Nat} (h : 0 < px) : 0 < level px := by
  unfold level
  split_ifs <;> omega

theorem level_lt_levelMax {px : Nat} (h : px < maxPriceFieldValue price4) :
    level px < levelMax := by
  rw [maxPriceFieldValue_price4] at h
  unfold level levelMax
  split_ifs <;> omega

/-! ## Quotes -/

/-- `half_quote`: a price and a quantity. -/
structure HalfQuote where
  px : Nat
  qty : Int
  deriving DecidableEq, Repr

/-- `empty_bid_price` -/
def emptyBidPrice : Nat := 0

/-- `empty_offer_price` -/
def emptyOfferPrice : Nat := maxPriceFieldValue price4

/-- `empty_bid` -/
def emptyBid : HalfQuote := ⟨emptyBidPrice, 0⟩

/-- `empty_offer` -/
def emptyOffer : HalfQuote := ⟨emptyOfferPrice, 0⟩

end JayBeams.Itch5
