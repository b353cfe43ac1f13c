import JayBeams.Itch5.ArrayBasedOrderBook
import JayBeams.Library.Machine
import Mathlib.Tactic.SplitIfs

/-!
# The window of the array-based book side

`Window` is what every operation of the array-based side keeps: the inside is within reach of the
vector from the worst level of the window, the levels in the map are worse than the window, and the
window is either the empty one or has the width `windowWidth`. It says nothing about quantities.
-/

set_option autoImplicit false

namespace JayBeams.Itch5

open Containers Machines

/-! ## Levels relative to a window -/

namespace Side

/-- The distance of a level from the worst level of a window. -/
def dist (s : Side) (tkIni tkPx : Nat) : Nat :=
  match s with
  | buy => tkPx - tkIni
  | sell => tkIni - tkPx

/-- The level at a distance from the worst level of a window. -/
def levelAt (s : Side) (tkIni rel : Nat) : Nat :=
  match s with
  | buy => tkIni + rel
  | sell => tkIni - rel

/-- Distances that lead to a valid level. -/
def Reaches (s : Side) (tkIni rel : Nat) : Prop :=
  match s with
  | buy => tkIni + rel ≤ levelMax
  | sell => rel ≤ tkIni ∧ tkIni ≤ levelMax

/-- The level of a price that the book accepts, or the level of the empty quote. -/
def ValidLevel (s : Side) (k : Nat) : Prop := k < levelMax ∨ k = s.tkEmptyQuote

theorem priceLevels_emptyQuotePrice (s : Side) :
    priceLevels price4 0 s.emptyQuotePrice = .ok s.tkEmptyQuote := by
  cases s with
  | buy => rfl
  | sell => rw [emptyQuotePrice, priceLevels_price4, emptyOfferPrice, level_maxPrice]; rfl

theorem tkEmptyQuote_le (s : Side) : s.tkEmptyQuote ≤ levelMax := by
  cases s with
  | buy => exact Nat.zero_le _
  | sell => exact Nat.le_refl _

/-- No valid level is worse than the empty quote. -/
theorem not_better_tkEmptyQuote {s : Side} {k : Nat} (hk : k ≤ levelMax) :
    ¬ s.Better s.tkEmptyQuote k := by
  cases s with
  | buy => simp [tkEmptyQuote]
  | sell => simpa [tkEmptyQuote] using hk

theorem ValidLevel.le {s : Side} {k : Nat} (h : s.ValidLevel k) : k ≤ levelMax := by
  rcases h with h | h
  · exact Nat.le_of_lt h
  · exact h ▸ s.tkEmptyQuote_le

/-- The valid levels are closed under going to a worse level. -/
theorem ValidLevel.of_not_better {s : Side} {j k : Nat} (hj : s.ValidLevel j) (hk : k ≤ levelMax)
    (h : ¬ s.Better k j) : s.ValidLevel k := by
  cases s with
  | buy =>
      have hkj : k ≤ j := by simpa using h
      rcases hj with hj | hj
      · exact Or.inl (Nat.lt_of_le_of_lt hkj hj)
      · exact Or.inl (Nat.lt_of_le_of_lt (hj ▸ hkj) (by decide))
  | sell =>
      rcases Nat.eq_or_lt_of_le hk with hk | hk
      · exact Or.inr hk
      · exact Or.inl hk

theorem levelToRelative_eq {s : Side} {a k : Nat} (h : ¬ s.Better a k) :
    s.levelToRelative a k = .ok (s.dist a k) := by
  cases s with
  | buy => exact if_pos (by simpa using h)
  | sell => exact if_pos (by simpa using h)

theorem relativeToLevel_eq {s : Side} {a i : Nat} (h : s.Reaches a i) :
    s.relativeToLevel a i = .ok (s.levelAt a i) := by
  cases s with
  | buy =>
      have h' : a + i ≤ levelMax := h
      simp only [relativeToLevel, levelAt]
      rw [if_pos ⟨by omega, by omega⟩]
      rfl
  | sell =>
      have h' : i ≤ a ∧ a ≤ levelMax := h
      simp only [relativeToLevel, levelAt]
      rw [if_pos ⟨by omega, by omega⟩, ← Int.ofNat_sub h'.1]
      rfl

theorem levelAt_dist {s : Side} {a k : Nat} (h : ¬ s.Better a k) :
    s.levelAt a (s.dist a k) = k := by
  cases s <;> simp [levelAt, dist] at * <;> omega

theorem dist_levelAt {s : Side} {a i : Nat} (h : s.Reaches a i) :
    s.dist a (s.levelAt a i) = i := by
  cases s <;> simp [levelAt, dist, Reaches] at *
  omega

theorem not_better_levelAt (s : Side) (a i : Nat) : ¬ s.Better a (s.levelAt a i) := by
  cases s <;> simp [levelAt]

theorem not_better_levelAt_of_le {s : Side} {a i j : Nat} (h : i ≤ j) :
    ¬ s.Better (s.levelAt a i) (s.levelAt a j) := by
  cases s <;> simp [levelAt] <;> omega

theorem reaches_of_le {s : Side} {a k i : Nat} (ha : a ≤ levelMax) (hk : k ≤ levelMax)
    (h : ¬ s.Better a k) (hi : i ≤ s.dist a k) : s.Reaches a i := by
  cases s <;> simp [Reaches, dist] at * <;> omega

theorem levelAt_le {s : Side} {a i : Nat} (h : s.Reaches a i) : s.levelAt a i ≤ levelMax := by
  cases s <;> simp [levelAt, Reaches] at * <;> omega

/-- Distances from one level order the levels on its better side. -/
theorem dist_lt_iff {s : Side} {a j k : Nat} (hj : ¬ s.Better a j) (hk : ¬ s.Better a k) :
    s.dist a j < s.dist a k ↔ s.Better k j := by
  cases s <;> simp [dist] at * <;> omega

theorem dist_le_iff {s : Side} {a j k : Nat} (hj : ¬ s.Better a j) (hk : ¬ s.Better a k) :
    s.dist a j ≤ s.dist a k ↔ ¬ s.Better j k := by
  rw [← Nat.not_lt, dist_lt_iff hk hj]

/-- Distances add up along levels that get better. -/
theorem dist_add {s : Side} {a j k : Nat} (hj : ¬ s.Better a j) (hk : ¬ s.Better j k) :
    s.dist a k = s.dist a j + s.dist j k := by
  cases s <;> simp [dist] at * <;> omega

theorem dist_self (s : Side) (a : Nat) : s.dist a a = 0 := by
  cases s <;> simp [dist]

theorem levelAt_zero (s : Side) (a : Nat) : s.levelAt a 0 = a := by
  cases s <;> rfl

theorem dist_eq_iff {s : Side} {a j k : Nat} (hj : ¬ s.Better a j) (hk : ¬ s.Better a k) :
    s.dist a j = s.dist a k ↔ j = k := by
  cases s <;> simp [dist] at * <;> omega

end Side

/-! ## The limits of a window -/

/-- The number of levels in a window that is not empty. -/
def windowWidth (maxSize : Nat) : Nat := min (2 * (maxSize / 2)) levelMax

/-- `get_limits` returns a window of the common width that reaches the level it is given. -/
theorem getLimits_spec {s : Side} {k : Nat} (rel : Nat) (hne : k ≠ s.tkEmptyQuote) (hk : k < levelMax) :
    (s.getLimits k rel).2 = (s.getLimits k rel).1 + min (2 * rel) levelMax ∧
      (s.getLimits k rel).2 ≤ levelMax ∧ (s.getLimits k rel).1 ≤ k ∧
      (rel = 0 → (s.getLimits k rel).1 = k) ∧
      (0 < rel → k < (s.getLimits k rel).2 ∧ (0 < k → (s.getLimits k rel).1 < k)) := by
  unfold levelMax at *
  unfold Side.getLimits
  rw [if_neg hne]
  simp only [levelMax, ge_iff_le]
  split_ifs <;> simp only [] at * <;> omega

theorem getLimits_empty (s : Side) (rel : Nat) :
    s.getLimits s.tkEmptyQuote rel = (s.tkEmptyQuote, s.tkEmptyQuote) :=
  if_pos rfl

/-- The limits of a window as `limit_top_prices` returns them: `b` is its worst level and `e` is one
past its best level. -/
structure Limits (s : Side) (maxSize b e : Nat) : Prop where
  begin_le : b ≤ levelMax
  end_le : e ≤ levelMax
  width : s.dist b e = windowWidth maxSize
  order : ¬ s.Better b e

/-- Windows have one width, so that a window with a better end has a better beginning. -/
theorem Limits.begin_not_better {s : Side} {maxSize b e b' e' : Nat} (h : Limits s maxSize b e)
    (h' : Limits s maxSize b' e') (hend : ¬ s.Better e e') : ¬ s.Better b b' := by
  obtain ⟨-, -, hw, ho⟩ := h
  obtain ⟨-, -, hw', ho'⟩ := h'
  cases s with
  | buy =>
      simp only [Side.dist, Side.better_buy] at *
      omega
  | sell =>
      simp only [Side.dist, Side.better_sell] at *
      omega

theorem limitTopPrices_empty (s : Side) (rel : Nat) :
    s.limitTopPrices s.tkEmptyQuote rel = (s.tkEmptyQuote, s.tkEmptyQuote) := by
  cases s <;> simp [Side.limitTopPrices, getLimits_empty]

section LimitTopPrices

variable {s : Side} (maxSize : Nat) {k : Nat}

theorem limitTopPrices_limits (hne : k ≠ s.tkEmptyQuote) (hk : k < levelMax) :
    Limits s maxSize (s.limitTopPrices k (maxSize / 2)).1
      (s.limitTopPrices k (maxSize / 2)).2 := by
  obtain ⟨hw, hle, -, -, -⟩ := getLimits_spec (maxSize / 2) hne hk
  cases s with
  | buy =>
      simp only [Side.limitTopPrices]
      refine ⟨by omega, hle, ?_, ?_⟩
      · simp only [Side.dist, windowWidth]
        omega
      · simp only [Side.better_buy]
        omega
  | sell =>
      simp only [Side.limitTopPrices]
      refine ⟨hle, by omega, ?_, ?_⟩
      · simp only [Side.dist, windowWidth]
        omega
      · simp only [Side.better_sell]
        omega

/-- The level given to `limit_top_prices` is not worse than the window. -/
theorem limitTopPrices_not_better (hne : k ≠ s.tkEmptyQuote) (hk : k < levelMax) :
    ¬ s.Better (s.limitTopPrices k (maxSize / 2)).1 k := by
  obtain ⟨hw, hle, hlo, hzero, hpos⟩ := getLimits_spec (maxSize / 2) hne hk
  cases s with
  | buy =>
      simp only [Side.limitTopPrices, Side.better_buy]
      omega
  | sell =>
      simp only [Side.limitTopPrices, Side.better_sell]
      rcases Nat.eq_zero_or_pos (maxSize / 2) with h0 | h0
      · have := hzero h0
        omega
      · have := (hpos h0).1
        omega

/-- The level given to `limit_top_prices` is not better than the end of the window. -/
theorem limitTopPrices_end_not_worse (hne : k ≠ s.tkEmptyQuote) (hk : k < levelMax) :
    ¬ s.Better k (s.limitTopPrices k (maxSize / 2)).2 := by
  obtain ⟨hw, hle, hlo, hzero, hpos⟩ := getLimits_spec (maxSize / 2) hne hk
  cases s with
  | buy =>
      simp only [Side.limitTopPrices, Side.better_buy]
      rcases Nat.eq_zero_or_pos (maxSize / 2) with h0 | h0
      · have := hzero h0
        omega
      · have := (hpos h0).1
        omega
  | sell =>
      simp only [Side.limitTopPrices, Side.better_sell]
      omega

/-- A level above zero is strictly before the end of a window that has levels. -/
theorem limitTopPrices_end_better (hne : k ≠ s.tkEmptyQuote) (hk : k < levelMax) (h0 : 0 < k)
    (hrel : 0 < maxSize / 2) : s.Better (s.limitTopPrices k (maxSize / 2)).2 k := by
  obtain ⟨-, -, -, -, hpos⟩ := getLimits_spec (maxSize / 2) hne hk
  cases s with
  | buy => exact (hpos hrel).1
  | sell => exact (hpos hrel).2 h0

/-- The level given to `limit_top_prices` is inside the window when the window has a level, and
otherwise it is its worst level. A sell at level zero is one past the best level of its window. -/
theorem dist_limitTopPrices_le (hne : k ≠ s.tkEmptyQuote) (hk : k < levelMax) :
    s.dist (s.limitTopPrices k (maxSize / 2)).1 k ≤ windowWidth maxSize ∧
      (0 < k → 0 < windowWidth maxSize →
        s.dist (s.limitTopPrices k (maxSize / 2)).1 k < windowWidth maxSize) := by
  obtain ⟨hw, hle, hlo, hzero, hpos⟩ := getLimits_spec (maxSize / 2) hne hk
  have hwidth : windowWidth maxSize = min (2 * (maxSize / 2)) levelMax := rfl
  cases s with
  | buy =>
      simp only [Side.limitTopPrices, Side.dist]
      rcases Nat.eq_zero_or_pos (maxSize / 2) with h0 | h0
      · have := hzero h0
        omega
      · have := hpos h0
        omega
  | sell =>
      simp only [Side.limitTopPrices, Side.dist]
      rcases Nat.eq_zero_or_pos (maxSize / 2) with h0 | h0
      · have := hzero h0
        omega
      · have := hpos h0
        omega

theorem dist_limitTopPrices_sell_zero :
    Side.sell.dist (Side.sell.limitTopPrices 0 (maxSize / 2)).1 0 = windowWidth maxSize := by
  have hne : (0 : Nat) ≠ Side.sell.tkEmptyQuote := by decide
  obtain ⟨hw, hle, hlo, -, -⟩ := getLimits_spec (maxSize / 2) hne (by decide)
  simp only [Side.limitTopPrices, Side.dist, windowWidth]
  omega

end LimitTopPrices

/-! ## The invariant -/

namespace ArrayBasedBookSide

/-- What every operation on a side keeps. -/
structure Window {s : Side} (b : ArrayBasedBookSide s) : Prop where
  length_eq : b.topLevels.length = b.maxSize
  begin_le : b.tkBeginTop ≤ levelMax
  inside_valid : s.ValidLevel b.tkInside
  not_better : ¬ s.Better b.tkBeginTop b.tkInside
  dist_lt : s.dist b.tkBeginTop b.tkInside < b.maxSize
  /-- the levels in the map are valid and worse than the window -/
  bottom_worse : ∀ k, b.bottomLevels.find? k ≠ none → s.Better b.tkBeginTop k ∧ s.ValidLevel k
  limits : (b.tkBeginTop = s.tkEmptyQuote ∧ b.tkEndTop = s.tkEmptyQuote ∧
      b.tkInside = s.tkEmptyQuote) ∨
    Limits s b.maxSize b.tkBeginTop b.tkEndTop

/-- No level of the window is in the map. -/
theorem Window.find?_eq_none {s : Side} {b : ArrayBasedBookSide s} (hw : Window b) {k : Nat}
    (hk : ¬ s.Better b.tkBeginTop k) : b.bottomLevels.find? k = none := by
  cases h : b.bottomLevels.find? k with
  | none => rfl
  | some x => exact absurd (hw.bottom_worse k (by simp [h])).1 hk

theorem Window.reaches {s : Side} {b : ArrayBasedBookSide s} (hw : Window b) {m : Nat}
    (hm : m ≤ s.dist b.tkBeginTop b.tkInside) : s.Reaches b.tkBeginTop m :=
  Side.reaches_of_le hw.begin_le hw.inside_valid.le hw.not_better hm

end ArrayBasedBookSide

end JayBeams.Itch5
