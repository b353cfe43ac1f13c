import JayBeams.Itch5.ArrayWindow
import Mathlib.Order.Interval.Finset.Nat

/-!
# The limits of a fresh window

`getLimits` computes on natural numbers, where a difference below zero would be zero and a sum has no
bound. `getLimitsChecked` is the same function on `std::size_t`: it stops at the first intermediate
that the type cannot hold. For every level between the empty quotes it does not stop and returns what
`getLimits` returns (`getLimitsChecked_eq`), so that the width and the containment shown on natural
numbers hold of the unsigned code.
-/

set_option autoImplicit false

namespace JayBeams.Itch5

/-- The result of an operation of `std::size_t`, which stops where it would wrap. -/
def sizeResult (x : Int) : Except Failure Nat :=
  if 0 ≤ x ∧ x < 2 ^ 64 then .ok x.toNat else .error (.invalidLevel x)

/-- `a + b` in `std::size_t` -/
def sizeAdd (a b : Nat) : Except Failure Nat := sizeResult (a + b)

/-- `a - b` in `std::size_t` -/
def sizeSub (a b : Nat) : Except Failure Nat := sizeResult (a - b)

theorem bind_of_ok {α β : Type} {x : Except Failure α} {a : α} (h : x = .ok a)
    (f : α → Except Failure β) : (x >>= f) = f a := by
  rw [h]
  rfl

theorem sizeAdd_eq {a b : Nat} (h : a + b < 2 ^ 64) : sizeAdd a b = .ok (a + b) := by
  have hfits : 0 ≤ (a + b : Int) ∧ (a + b : Int) < 2 ^ 64 := by omega
  rw [sizeAdd, sizeResult, if_pos hfits]
  rfl

theorem sizeSub_eq {a b : Nat} (hle : b ≤ a) (h : a < 2 ^ 64) : sizeSub a b = .ok (a - b) := by
  have hfits : 0 ≤ (a - b : Int) ∧ (a - b : Int) < 2 ^ 64 := by omega
  rw [sizeSub, sizeResult, if_pos hfits, ← Int.ofNat_sub hle]
  rfl

namespace Side

/-- `tk <= rel ? 0 : tk - rel` -/
def lowClamped (tk rel : Nat) : Except Failure Nat :=
  if tk ≤ rel then .ok 0 else sizeSub tk rel

/-- `tk + rel >= level_max ? level_max : tk + rel` -/
def highClamped (levelMax tk rel : Nat) : Except Failure Nat := do
  let sum ← sizeAdd tk rel
  if sum ≥ levelMax then return levelMax else sizeAdd tk rel

/-- `get_limits` on `std::size_t`, which stops where an intermediate would wrap. -/
def getLimitsChecked (s : Side) (tkPx rel : Nat) : Except Failure (Nat × Nat) := do
  if tkPx = s.tkEmptyQuote then return (s.tkEmptyQuote, s.tkEmptyQuote)
  let levelMax ← priceLevels price4 0 emptyOfferPrice
  let tkLow ← lowClamped tkPx rel
  let tkLowBase ← highClamped levelMax tkLow rel
  let tkHigh ← highClamped levelMax tkLowBase rel
  let tkHighBase ← lowClamped tkHigh rel
  if tkLowBase ≠ tkHighBase then
    let tkLow ← lowClamped tkHighBase rel
    return (tkLow, tkHigh)
  return (tkLow, tkHigh)

/-- `limit_top_prices` on `std::size_t`. -/
def limitTopPricesChecked (s : Side) (tkPx rel : Nat) : Except Failure (Nat × Nat) := do
  let lim ← s.getLimitsChecked tkPx rel
  match s with
  | buy => return lim
  | sell => return (lim.2, lim.1)

/-- The levels of a window as the side reads its limits: from the worst level up to, but without, the
end. -/
def windowLevels (s : Side) (window : Nat × Nat) : Finset Nat :=
  match s with
  | buy => Finset.Ico window.1 window.2
  | sell => Finset.Ioc window.2 window.1

theorem lowClamped_eq {tk : Nat} (rel : Nat) (h : tk < 2 ^ 64) :
    lowClamped tk rel = .ok (if tk ≤ rel then 0 else tk - rel) := by
  unfold lowClamped
  by_cases hle : tk ≤ rel
  · rw [if_pos hle, if_pos hle]
  · rw [if_neg hle, if_neg hle]
    exact sizeSub_eq (Nat.le_of_not_le hle) h

theorem highClamped_eq {tk rel : Nat} (levelMax : Nat) (h : tk + rel < 2 ^ 64) :
    highClamped levelMax tk rel = .ok (if tk + rel ≥ levelMax then levelMax else tk + rel) := by
  unfold highClamped
  rw [sizeAdd_eq h]
  by_cases hge : tk + rel ≥ levelMax
  · rw [if_pos hge]
    exact if_pos hge
  · rw [if_neg hge]
    exact if_neg hge

theorem lowClamped_le (tk rel : Nat) : (if tk ≤ rel then 0 else tk - rel) ≤ tk := by
  split
  · exact Nat.zero_le tk
  · exact Nat.sub_le tk rel

theorem highClamped_le (levelMax tk rel : Nat) :
    (if tk + rel ≥ levelMax then levelMax else tk + rel) ≤ levelMax := by
  split
  · exact Nat.le_refl levelMax
  · next h => exact Nat.le_of_not_le h

/-- The level of the empty offer price. -/
theorem priceLevels_emptyOfferPrice : priceLevels price4 0 emptyOfferPrice = .ok levelMax :=
  priceLevels_emptyQuotePrice sell

/-- No intermediate of `get_limits` wraps: every level stays below `level_max`, and `rel` is added to
levels only. -/
theorem getLimitsChecked_eq (s : Side) {tkPx rel : Nat} (hk : tkPx ≤ levelMax) (hrel : rel < 2 ^ 32) :
    s.getLimitsChecked tkPx rel = .ok (s.getLimits tkPx rel) := by
  unfold getLimitsChecked getLimits
  by_cases hempty : tkPx = s.tkEmptyQuote
  · rw [if_pos hempty, if_pos hempty]
    rfl
  rw [if_neg hempty, if_neg hempty, bind_of_ok priceLevels_emptyOfferPrice]
  dsimp only
  have hmax : levelMax < 2 ^ 32 := by decide
  -- Only the bound on the largest level matters from here on, not its value.
  generalize levelMax = levelMax at hk hmax ⊢
  have hfits : ∀ {tk : Nat}, tk ≤ levelMax → tk + rel < 2 ^ 64 := by
    intro tk htk
    omega
  have hsize : ∀ {tk : Nat}, tk ≤ levelMax → tk < 2 ^ 64 := fun htk =>
    Nat.lt_of_le_of_lt (Nat.le_add_right _ rel) (hfits htk)
  -- each expression is at most `level_max`, which is what the next one needs
  have hlow := lowClamped_eq rel (hsize hk)
  have hlowLe := Nat.le_trans (lowClamped_le tkPx rel) hk
  generalize (if tkPx ≤ rel then 0 else tkPx - rel) = tkLow at hlow hlowLe ⊢
  have hlowBase := highClamped_eq levelMax (hfits hlowLe)
  have hlowBaseLe := highClamped_le levelMax tkLow rel
  generalize (if tkLow + rel ≥ levelMax then levelMax else tkLow + rel) = tkLowBase
    at hlowBase hlowBaseLe ⊢
  have hhigh := highClamped_eq levelMax (hfits hlowBaseLe)
  have hhighLe := highClamped_le levelMax tkLowBase rel
  generalize (if tkLowBase + rel ≥ levelMax then levelMax else tkLowBase + rel) = tkHigh
    at hhigh hhighLe ⊢
  have hhighBase := lowClamped_eq rel (hsize hhighLe)
  have hhighBaseLe := Nat.le_trans (lowClamped_le tkHigh rel) hhighLe
  generalize (if tkHigh ≤ rel then 0 else tkHigh - rel) = tkHighBase at hhighBase hhighBaseLe ⊢
  have hlow' := lowClamped_eq rel (hsize hhighBaseLe)
  rw [bind_of_ok hlow, bind_of_ok hlowBase, bind_of_ok hhigh, bind_of_ok hhighBase]
  by_cases hbase : tkLowBase ≠ tkHighBase
  · rw [if_pos hbase, if_pos hbase, bind_of_ok hlow']
    rfl
  · rw [if_neg hbase, if_neg hbase]
    rfl

theorem limitTopPricesChecked_eq (s : Side) {tkPx rel : Nat} (hk : tkPx ≤ levelMax)
    (hrel : rel < 2 ^ 32) : s.limitTopPricesChecked tkPx rel = .ok (s.limitTopPrices tkPx rel) := by
  unfold limitTopPricesChecked
  rw [bind_of_ok (s.getLimitsChecked_eq hk hrel)]
  cases s with
  | buy => rfl
  | sell => rfl

/-- A window of both sides holds the levels between the limits, with the end of `get_limits` that the
side starts from. -/
theorem mem_windowLevels_limitTopPrices (s : Side) {tkPx rel k : Nat}
    (hlo : (s.getLimits tkPx rel).1 < k) (hhi : k < (s.getLimits tkPx rel).2) :
    k ∈ s.windowLevels (s.limitTopPrices tkPx rel) := by
  cases s with
  | buy => exact Finset.mem_Ico.2 ⟨Nat.le_of_lt hlo, hhi⟩
  | sell => exact Finset.mem_Ioc.2 ⟨hlo, Nat.le_of_lt hhi⟩

theorem card_windowLevels_limitTopPrices (s : Side) (tkPx rel : Nat) :
    (s.windowLevels (s.limitTopPrices tkPx rel)).card =
      (s.getLimits tkPx rel).2 - (s.getLimits tkPx rel).1 := by
  cases s with
  | buy => exact Nat.card_Ico _ _
  | sell => exact Nat.card_Ioc _ _

theorem ne_tkEmptyQuote (s : Side) {k : Nat} (hpos : 0 < k) (hlt : k < levelMax) :
    k ≠ s.tkEmptyQuote := by
  cases s with
  | buy => exact Nat.ne_of_gt hpos
  | sell => exact Nat.ne_of_lt hlt

/-- The limits of a window around a level between the empty quotes: the unsigned code does not wrap,
the level is strictly inside, and the width depends on `rel` only. The window of either side contains
the level and has that width. -/
theorem getLimits_fresh_window (s : Side) {tkPx rel : Nat} (hpos : 0 < tkPx) (hlt : tkPx < levelMax)
    (hrel : 1 ≤ rel) (hbound : rel < 2 ^ 31) :
    priceLevels price4 0 emptyOfferPrice = .ok levelMax ∧
      (∃ lo hi, s.getLimitsChecked tkPx rel = .ok (lo, hi) ∧ lo < tkPx ∧ tkPx < hi ∧
        hi ≤ levelMax ∧ hi - lo = min (2 * rel) levelMax) ∧
      s.limitTopPricesChecked tkPx rel = .ok (s.limitTopPrices tkPx rel) ∧
      tkPx ∈ s.windowLevels (s.limitTopPrices tkPx rel) ∧
      (s.windowLevels (s.limitTopPrices tkPx rel)).card = min (2 * rel) levelMax := by
  have hrel32 : rel < 2 ^ 32 := Nat.lt_trans hbound (by decide)
  have hchecked := s.getLimitsChecked_eq (Nat.le_of_lt hlt) hrel32
  obtain ⟨hwidth, hle, -, -, hinside⟩ := getLimits_spec rel (s.ne_tkEmptyQuote hpos hlt) hlt
  obtain ⟨hhi, hlo⟩ := hinside hrel
  have hdiff : (s.getLimits tkPx rel).2 - (s.getLimits tkPx rel).1 = min (2 * rel) levelMax := by
    rw [hwidth, Nat.add_sub_cancel_left]
  refine ⟨priceLevels_emptyOfferPrice, ⟨_, _, hchecked, hlo hpos, hhi, hle, hdiff⟩, ?_, ?_, ?_⟩
  · exact s.limitTopPricesChecked_eq (Nat.le_of_lt hlt) hrel32
  · exact s.mem_windowLevels_limitTopPrices (hlo hpos) hhi
  · rw [s.card_windowLevels_limitTopPrices, hdiff]

/-- A window that is clamped at the top, on the side that reads it downwards. -/
theorem getLimits_fresh_window_clamped :
    ∃ lo hi, Side.sell.getLimitsChecked 20009000 4096 = .ok (lo, hi) ∧ lo < 20009000 ∧
      20009000 < hi ∧ hi ≤ levelMax ∧ hi - lo = min (2 * 4096) levelMax :=
  (getLimits_fresh_window .sell (by decide) (by decide) (by decide) (by decide)).2.1

end Side

end JayBeams.Itch5
