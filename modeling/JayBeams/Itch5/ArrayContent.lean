import JayBeams.Itch5.ArraySafety

/-!
# The content of the array-based side

A side holds a depth, keyed by price level, when each level has the quantity of the depth, be it in
the vector or in the map, and the vector is zero past the inside (`Holds`). It represents the depth
when the inside is the best level besides (`Represents`). Updates of one level and of the window keep
these: a move of the window around a better inside changes where the quantities are kept, and not what
they are (`Moved.content_eq`, `Moved.holds`).
-/

set_option autoImplicit false

namespace JayBeams.Itch5.ArrayBasedBookSide

open Containers

variable {s : Side}

/-- The quantity recorded for a level. -/
def content (b : ArrayBasedBookSide s) (k : Nat) : Int :=
  if s.Better b.tkBeginTop k then b.bottomLevels.qtyAt k else b.slotOf k

/-- The window is sound and the vector is zero past the inside. -/
structure Tidy (b : ArrayBasedBookSide s) : Prop where
  window : Window b
  slot_zero : ∀ m, s.dist b.tkBeginTop b.tkInside < m → b.slot m = 0

/-- The side holds the quantities of the depth. -/
structure Holds (b : ArrayBasedBookSide s) (d : Depth s) : Prop where
  window : Window b
  positive : d.Positive
  keys : ∀ k, d.find? k ≠ none → 0 < k ∧ k < levelMax
  content_eq : ∀ k, b.content k = d.qtyAt k
  bottom_positive : b.bottomLevels.Positive
  slot_zero : ∀ m, s.dist b.tkBeginTop b.tkInside < m → b.slot m = 0

/-- The side holds the depth, and its inside is the best level of it. -/
structure Represents (b : ArrayBasedBookSide s) (d : Depth s) : Prop extends Holds b d where
  inside_eq : b.tkInside = d.bestKey.getD s.tkEmptyQuote

section Content

variable {b : ArrayBasedBookSide s} {d : Depth s} {k : Nat}

theorem content_of_better (h : s.Better b.tkBeginTop k) : b.content k = b.bottomLevels.qtyAt k :=
  if_pos h

theorem content_of_not_better (h : ¬ s.Better b.tkBeginTop k) : b.content k = b.slotOf k :=
  if_neg h

theorem Holds.tidy (h : Holds b d) : Tidy b := ⟨h.window, h.slot_zero⟩

/-- An accepted level is not the level of the empty quote. -/
theorem ne_tkEmptyQuote (h0 : 0 < k) (hk : k < levelMax) : k ≠ s.tkEmptyQuote := by
  cases s with
  | buy => exact Nat.pos_iff_ne_zero.1 h0
  | sell => exact Nat.ne_of_lt hk

theorem Holds.ne_empty (h : Holds b d) (hk : d.find? k ≠ none) : k ≠ s.tkEmptyQuote :=
  ne_tkEmptyQuote (h.keys k hk).1 (h.keys k hk).2

/-- No level of the depth is better than the inside of a side that holds it. -/
theorem Holds.not_better_inside (h : Holds b d) (hk : d.find? k ≠ none) :
    ¬ s.Better k b.tkInside := by
  intro hb
  have hbegin : ¬ s.Better b.tkBeginTop k := fun hbk =>
    h.window.not_better (Side.better_trans hbk hb)
  have hslot : b.slotOf k = 0 :=
    h.slot_zero _ ((Side.dist_lt_iff h.window.not_better hbegin).2 hb)
  have hzero : d.qtyAt k = 0 := by rw [← h.content_eq, content_of_not_better hbegin, hslot]
  exact hk ((Depth.qtyAt_eq_zero_iff h.positive).1 hzero)

theorem Holds.find?_eq_none_iff (h : Holds b d) : d.find? k = none ↔ b.content k = 0 := by
  rw [h.content_eq, Depth.qtyAt_eq_zero_iff h.positive]

/-- The map of a side that holds a depth is the part of the depth worse than the window. -/
theorem Holds.bottom_find? (h : Holds b d) (hk : s.Better b.tkBeginTop k) :
    b.bottomLevels.find? k = d.find? k := by
  have hqty : b.bottomLevels.qtyAt k = d.qtyAt k := by
    rw [← h.content_eq, content_of_better hk]
  cases hd : d.find? k with
  | none =>
      rw [← Depth.qtyAt_eq_zero_iff h.bottom_positive, hqty, Depth.qtyAt_eq_zero_iff h.positive, hd]
  | some x =>
      have hx : d.qtyAt k = x := by rw [Depth.qtyAt, hd, Option.getD_some]
      rw [Depth.find?_eq_of_qtyAt_pos, hqty, hx]
      rw [hqty, hx]
      exact (h.positive k x hd).1

/-- The elements of the vector are the quantities of the levels they stand for. -/
theorem Holds.slot_eq (h : Holds b d) {m : Nat} (hm : m ≤ s.dist b.tkBeginTop b.tkInside) :
    b.slot m = d.qtyAt (s.levelAt b.tkBeginTop m) := by
  rw [← h.content_eq, content_of_not_better (s.not_better_levelAt _ _), slotOf,
    Side.dist_levelAt (h.window.reaches hm)]

theorem Represents.inside_empty_iff (h : Represents b d) :
    b.tkInside = s.tkEmptyQuote ↔ d.bestKey = none := by
  rw [h.inside_eq]
  cases hbest : d.bestKey with
  | none => simp
  | some k => simpa using h.ne_empty (Depth.bestKey_eq_some_iff.1 hbest).1

theorem slot_make (cfg : ArrayBasedConfig) (m : Nat) : (make cfg s).slot m = 0 := by
  simp only [slot, make, List.getD_eq_getElem?_getD, List.getElem?_replicate]
  split_ifs <;> rfl

theorem represents_make (cfg : ArrayBasedConfig) (hcfg : cfg.validate = true) :
    Represents (make cfg s) OrderedMap.empty where
  window := Window.make cfg hcfg
  positive := Depth.positive_empty
  keys := fun k h => absurd rfl h
  content_eq := by
    intro k
    rw [content]
    split_ifs
    · rfl
    · rw [slotOf, slot_make]
      rfl
  bottom_positive := Depth.positive_empty
  slot_zero := fun m _ => slot_make cfg m
  inside_eq := rfl

end Content

/-! ## Updates of one level -/

section Update

variable {b : ArrayBasedBookSide s} {d : Depth s} {k : Nat}

/-- Writing the element of a level changes the quantity of that level only: a level in the map is not
the one of the element. -/
theorem content_setTop (hk : ¬ s.Better b.tkBeginTop k)
    (hlen : s.dist b.tkBeginTop k < b.topLevels.length) (x : Int) (j : Nat) :
    (b.setTop (s.dist b.tkBeginTop k) x).content j = if j = k then x else b.content j := by
  rw [content, content, setTop_tkBeginTop, setTop_bottomLevels]
  by_cases hj : s.Better b.tkBeginTop j
  · have hjk : j ≠ k := fun he => hk (he ▸ hj)
    rw [if_pos hj, if_pos hj, if_neg hjk]
  · rw [if_neg hj, if_neg hj, slotOf, slotOf, setTop_tkBeginTop, slot_setTop _ _ _ _ hlen]
    refine if_congr ?_ rfl rfl
    exact Side.dist_eq_iff hj hk

/-- Updating the map changes the quantities of the levels in the map only. -/
theorem content_setBottom (e : Depth s) (j : Nat) :
    (b.setBottom e).content j =
      if s.Better b.tkBeginTop j then e.qtyAt j else b.content j := by
  rw [content, content, setBottom_tkBeginTop, setBottom_bottomLevels]
  by_cases hj : s.Better b.tkBeginTop j
  · rw [if_pos hj, if_pos hj]
  · rw [if_neg hj, if_neg hj, if_neg hj]
    rfl

/-- The element of a level that is not better than the inside can be written. -/
theorem Tidy.setTop (h : Tidy b) (hk : ¬ s.Better b.tkBeginTop k) (hi : ¬ s.Better k b.tkInside)
    (x : Int) : Tidy (b.setTop (s.dist b.tkBeginTop k) x) := by
  have hlen : s.dist b.tkBeginTop k < b.topLevels.length :=
    h.window.length_eq ▸ h.window.dist_lt_maxSize hk hi
  refine ⟨h.window.setTop _ _, fun m hm => ?_⟩
  rw [slot_setTop _ _ _ _ hlen, if_neg]
  · exact h.slot_zero m hm
  · have hle := (Side.dist_le_iff hk h.window.not_better).2 hi
    rintro rfl
    exact Nat.not_lt_of_le hle hm

/-- The inside can move to a level that is not worse. -/
theorem Tidy.setInside (h : Tidy b) (hb : ¬ s.Better b.tkBeginTop k) (hi : ¬ s.Better b.tkInside k)
    (hw : Window (b.setWindow k b.tkBeginTop b.tkEndTop)) :
    Tidy (b.setWindow k b.tkBeginTop b.tkEndTop) := by
  refine ⟨hw, fun m hm => ?_⟩
  have hle := (Side.dist_le_iff h.window.not_better hb).2 hi
  exact h.slot_zero m (Nat.lt_of_le_of_lt hle hm)

/-- Replacing the quantity of a level that is not better than the inside. -/
theorem Holds.setTop (h : Holds b d) (hk : ¬ s.Better b.tkBeginTop k)
    (hi : ¬ s.Better k b.tkInside) {e : Depth s} (hpos : e.Positive)
    (hkeys : ∀ j, e.find? j ≠ none → 0 < j ∧ j < levelMax) {x : Int}
    (hqty : ∀ j, e.qtyAt j = if j = k then x else d.qtyAt j) :
    Holds (b.setTop (s.dist b.tkBeginTop k) x) e := by
  have hlen : s.dist b.tkBeginTop k < b.topLevels.length :=
    h.window.length_eq ▸ h.window.dist_lt_maxSize hk hi
  have htidy := h.tidy.setTop hk hi x
  refine ⟨htidy.window, hpos, hkeys, fun j => ?_, h.bottom_positive, htidy.slot_zero⟩
  rw [content_setTop hk hlen, hqty, h.content_eq]

/-- Replacing the quantity of a level in the map, which is none of those in the vector. -/
theorem Holds.setBottom (h : Holds b d) (hk : s.Better b.tkBeginTop k) (hvalid : s.ValidLevel k)
    {e f : Depth s} (hpos : e.Positive) (hkeys : ∀ j, e.find? j ≠ none → 0 < j ∧ j < levelMax)
    (hf : f.Positive) {x : Int} (hqty : ∀ j, e.qtyAt j = if j = k then x else d.qtyAt j)
    (hfqty : ∀ j, f.qtyAt j = if j = k then x else b.bottomLevels.qtyAt j) :
    Holds (b.setBottom f) e := by
  refine ⟨h.window.setBottom fun j hj => ?_, hpos, hkeys, fun j => ?_, hf, h.slot_zero⟩
  · by_cases hjk : j = k
    · exact hjk ▸ ⟨hk, hvalid⟩
    · refine h.window.bottom_worse j fun hn => hj ?_
      rw [← Depth.qtyAt_eq_zero_iff hf, hfqty, if_neg hjk, Depth.qtyAt_eq_zero_iff h.bottom_positive,
        hn]
  · rw [content_setBottom, hqty, hfqty, ← h.content_eq, content]
    by_cases hj : s.Better b.tkBeginTop j
    · rw [if_pos hj, if_pos hj]
    · have hjk : j ≠ k := fun he => hj (he ▸ hk)
      rw [if_neg hj, if_neg hj, if_neg hjk]

end Update

/-- Past the highest nonzero element below a cleared inside the vector is zero. -/
theorem Highest.slot_zero {b : ArrayBasedBookSide s} {m j : Nat}
    (hm : b.Highest (s.dist b.tkBeginTop b.tkInside) m) (h : Tidy b)
    (hz : b.slot (s.dist b.tkBeginTop b.tkInside) = 0) (hj : m < j) : b.slot j = 0 := by
  rcases Nat.lt_trichotomy j (s.dist b.tkBeginTop b.tkInside) with hlt | heq | hgt
  · exact hm.2.2 j hj hlt
  · exact heq ▸ hz
  · exact h.slot_zero j hgt

/-! ## Redefining the window around a better inside -/

section Move

variable {b c : ArrayBasedBookSide s} {d : Depth s} {k : Nat}

theorem content_recentered (c : ArrayBasedBookSide s) (k j : Nat) :
    (c.recentered k).content j =
      if s.Better (s.limitTopPrices k (c.maxSize / 2)).1 j then c.bottomLevels.qtyAt j
      else c.slot (s.dist (s.limitTopPrices k (c.maxSize / 2)).1 j) :=
  rfl

/-- The elements of the vector after the move are those of the levels of the new window. The shift in
place keeps them only when the window moves, or when they are zero: the elements at and below the old
inside are cleared. -/
theorem Moved.slot_eq (h : Tidy b) {lim : Nat} (hc : Moved b lim c)
    (hnb : ¬ s.Better b.tkBeginTop lim)
    (hkeep : b.tkBeginTop ≠ lim ∨ ∀ m, b.slot m = 0) (m : Nat) :
    c.slot m = b.slot (m + s.dist b.tkBeginTop lim) := by
  have hzero := h.slot_zero
  by_cases hall : s.Better lim b.tkInside
  · -- the new window is past the inside
    have hpast := (Side.dist_lt_iff h.window.not_better hnb).2 hall
    rw [hzero (m + s.dist b.tkBeginTop lim) (by omega)]
    rcases Nat.lt_or_ge (s.dist b.tkBeginTop b.tkInside) m with hm | hm
    · rw [hc.slot_rest m hm, hzero m hm]
    · exact hc.slot_zero m hm (Or.inl hall)
  · have hle := (Side.dist_le_iff hnb h.window.not_better).2 hall
    rcases Nat.lt_or_ge (s.dist b.tkBeginTop b.tkInside) m with hm | hm
    · rw [hc.slot_rest m hm, hzero m hm, hzero _ (by omega)]
    · rcases Nat.lt_or_ge (s.dist b.tkBeginTop b.tkInside) (m + s.dist b.tkBeginTop lim) with hr | hr
      · rw [hc.slot_zero m hm (Or.inr (Or.inr hr)), hzero _ hr]
      · rcases hkeep with hne | hz
        · exact hc.slot_shift hall hne m hr
        · by_cases heq : b.tkBeginTop = lim
          · rw [hc.slot_zero m hm (Or.inr (Or.inl heq)), hz]
          · exact hc.slot_shift hall heq m hr

/-- The move keeps the quantities: a level of the new window is one of the old window, shifted in the
vector, or comes from the map. -/
theorem Moved.content_eq (h : Tidy b)
    (hc : Moved b (s.limitTopPrices k (b.maxSize / 2)).1 c)
    (hnb : ¬ s.Better b.tkBeginTop (s.limitTopPrices k (b.maxSize / 2)).1)
    (hkeep : b.tkBeginTop ≠ (s.limitTopPrices k (b.maxSize / 2)).1 ∨ ∀ m, b.slot m = 0)
    (j : Nat) : (c.recentered k).content j = b.content j := by
  have hsize : c.maxSize = b.maxSize := by rw [hc.state_eq]
  rw [content_recentered, hsize]
  generalize (s.limitTopPrices k (b.maxSize / 2)).1 = lim at *
  by_cases hj : s.Better lim j
  · rw [if_pos hj, Depth.qtyAt]
    by_cases hin : ¬ s.Better b.tkBeginTop j ∧ s.Better lim j ∧ ¬ s.Better j b.tkInside ∧
        b.slotOf j ≠ 0
    · rw [hc.find?_in j hin.1 hin.2.1 hin.2.2.1 hin.2.2.2, content_of_not_better hin.1,
        Option.getD_some]
    · rw [hc.find?_out j hin]
      by_cases hb : s.Better b.tkBeginTop j
      · rw [content_of_better hb]
        rfl
      · -- an empty level of the old window
        rw [h.window.find?_eq_none hb, content_of_not_better hb, Option.getD_none]
        symm
        by_contra h0
        by_cases hi : s.Better j b.tkInside
        · exact h0 (h.slot_zero _ ((Side.dist_lt_iff h.window.not_better hb).2 hi))
        · exact hin ⟨hb, hj, hi, h0⟩
  · have hb : ¬ s.Better b.tkBeginTop j := Side.not_better_trans hnb hj
    rw [if_neg hj, content_of_not_better hb, slotOf, Side.dist_add hnb hj,
      hc.slot_eq h hnb hkeep, Nat.add_comm]

/-- The window of a vector of a single element is that of its inside. -/
theorem Window.begin_of_single (hw : Window b) (hsize : b.maxSize = 1) :
    b.tkBeginTop = b.tkInside := by
  have hlt := hw.dist_lt
  rw [← Side.dist_eq_iff (s.not_better_self b.tkBeginTop) hw.not_better, Side.dist_self]
  omega

theorem limitTopPrices_of_single (h0 : 0 < k) (hk : k < levelMax) {maxSize : Nat}
    (hsize : maxSize = 1) : (s.limitTopPrices k (maxSize / 2)).1 = k := by
  have hdist := (dist_limitTopPrices_le maxSize (ne_tkEmptyQuote (s := s) h0 hk) hk).1
  have hwidth : windowWidth maxSize = 0 := by
    rw [hsize]
    rfl
  rw [← Side.dist_eq_iff (s.not_better_self _)
    (not_better_limitTopPrices maxSize (s := s) (Or.inl hk)), Side.dist_self]
  omega

/-- An order at the level redefines the window and leaves it where it is, while the vector records
something: the inside of a vector of a single element, or a level whose window begins at the empty
quote, when the window is empty and an order at that price is recorded. The shift in place then
clears the vector. -/
def ClearsVector (b : ArrayBasedBookSide s) (k : Nat) : Prop :=
  (b.maxSize = 1 ∧ b.tkInside = k ∧ b.slotOf k ≠ 0) ∨
    (b.tkBeginTop = s.tkEmptyQuote ∧ b.tkEndTop = s.tkEmptyQuote ∧ b.tkInside = s.tkEmptyQuote) ∧
      (s.limitTopPrices k (b.maxSize / 2)).1 = s.tkEmptyQuote ∧ b.slotOf s.tkEmptyQuote ≠ 0

instance (b : ArrayBasedBookSide s) (k : Nat) : Decidable (b.ClearsVector k) :=
  inferInstanceAs (Decidable (_ ∨ _))

/-- Any other order past the end of the window moves it, unless the vector records nothing. Windows
that begin at the same level end at the same level, past the one that they are made for when they have
two or more; with one level, only the element of the inside can be nonzero. -/
theorem Tidy.moves (h : Tidy b) (h0 : 0 < k) (hk : k < levelMax) (he : ¬ s.Better b.tkEndTop k)
    (hkeep : ¬ b.ClearsVector k) :
    b.tkBeginTop ≠ (s.limitTopPrices k (b.maxSize / 2)).1 ∨ ∀ m, b.slot m = 0 := by
  by_contra hnot
  rw [not_or, not_not] at hnot
  obtain ⟨hbegin, hnonzero⟩ := hnot
  obtain ⟨m, hm⟩ := not_forall.1 hnonzero
  have hfirst : b.tkBeginTop = b.tkInside → b.slotOf b.tkInside ≠ 0 := by
    intro hin
    have hdist : s.dist b.tkBeginTop b.tkInside = 0 := by rw [hin, Side.dist_self]
    have hm0 : m = 0 := by
      by_contra hne
      exact hm (h.slot_zero m (by omega))
    rw [slotOf, hdist]
    rwa [hm0] at hm
  rcases h.window.limits with ⟨hbegin', hend, hinside⟩ | hlim
  · refine hkeep (Or.inr ⟨⟨hbegin', hend, hinside⟩, hbegin ▸ hbegin', ?_⟩)
    have hrec := hfirst (hbegin'.trans hinside.symm)
    rwa [hinside] at hrec
  · have hne : k ≠ s.tkEmptyQuote := ne_tkEmptyQuote h0 hk
    have hnew := limitTopPrices_limits b.maxSize hne hk
    have hend : b.tkEndTop = (s.limitTopPrices k (b.maxSize / 2)).2 := by
      rw [← Side.dist_eq_iff hlim.order (hbegin ▸ hnew.order), hlim.width, hbegin, hnew.width]
    by_cases hsize : b.maxSize = 1
    · have hsingle := h.window.begin_of_single hsize
      have hin : b.tkInside = k := by
        rw [← hsingle, hbegin, limitTopPrices_of_single h0 hk hsize]
      exact hkeep (Or.inl ⟨hsize, hin, hin ▸ hfirst hsingle⟩)
    · have hpos := Nat.zero_lt_of_lt h.window.dist_lt
      exact he (hend ▸ limitTopPrices_end_better b.maxSize hne hk h0 (by omega))

/-- A window moves when an order is past its end, unless the side is empty or has one element. -/
theorem Represents.moves (h : Represents b d) (h0 : 0 < k) (hk : k < levelMax)
    (he : ¬ s.Better b.tkEndTop k) (hkeep : ¬ (b.maxSize = 1 ∧ d.bestKey = some k)) :
    b.tkBeginTop ≠ (s.limitTopPrices k (b.maxSize / 2)).1 ∨ ∀ m, b.slot m = 0 := by
  apply h.tidy.moves h0 hk he
  rintro (⟨hsize, hin, -⟩ | ⟨⟨hbegin, -, hinside⟩, -, hrec⟩)
  · have hne : k ≠ s.tkEmptyQuote := ne_tkEmptyQuote h0 hk
    refine hkeep ⟨hsize, ?_⟩
    cases hbest : d.bestKey with
    | none => exact absurd (hin.symm.trans (h.inside_empty_iff.2 hbest)) hne
    | some j => rw [← hin, h.inside_eq, hbest, Option.getD_some]
  · -- the empty window holds nothing
    have hempty := Depth.bestKey_eq_none_iff.1 (h.inside_empty_iff.1 hinside)
    apply hrec
    rw [← content_of_not_better (by rw [hbegin]; exact s.not_better_self _), h.content_eq,
      Depth.qtyAt, hempty, Option.getD_none]

/-- A window that stays where it is is cleared. -/
theorem Moved.slot_cleared (h : Tidy b) {lim : Nat} (hc : Moved b lim c) (heq : b.tkBeginTop = lim)
    (m : Nat) : c.slot m = 0 := by
  rcases Nat.lt_or_ge (s.dist b.tkBeginTop b.tkInside) m with hm | hm
  · rw [hc.slot_rest m hm, h.slot_zero m hm]
  · exact hc.slot_zero m hm (Or.inr (Or.inl heq))

/-- The redefined window is zero past its inside: the old inside is not better than the new one, and
everything past it was zero. -/
theorem Moved.tidy (h : Tidy b) (hk : k < levelMax) (hsafe : ¬ PastEnd s b.maxSize k)
    (hb : ¬ s.Better b.tkBeginTop k) (hi : ¬ s.Better b.tkInside k)
    (he : ¬ s.Better b.tkEndTop k) (hc : Moved b (s.limitTopPrices k (b.maxSize / 2)).1 c) :
    Tidy (c.recentered k) := by
  have hnb := h.window.not_better_recentered hk hb he
  obtain ⟨hw, hsize⟩ := hc.window_recentered h.window hk hsafe hb he
  refine ⟨hw, fun m hm => ?_⟩
  show c.slot m = 0
  by_cases heq : b.tkBeginTop = (s.limitTopPrices k (b.maxSize / 2)).1
  · exact hc.slot_cleared h heq m
  · have hlim := not_better_limitTopPrices b.maxSize (s := s) (Or.inl hk)
    have hdist : s.dist (c.recentered k).tkBeginTop (c.recentered k).tkInside =
        s.dist (s.limitTopPrices k (b.maxSize / 2)).1 k := by
      rw [← hsize]
      rfl
    have hle : s.dist b.tkBeginTop b.tkInside ≤ s.dist b.tkBeginTop k :=
      (Side.dist_le_iff h.window.not_better hb).2 hi
    rw [Side.dist_add hnb hlim] at hle
    rw [hc.slot_eq h hnb (Or.inl heq)]
    exact h.slot_zero _ (by omega)

theorem Moved.holds (h : Holds b d) (hk : k < levelMax) (hsafe : ¬ PastEnd s b.maxSize k)
    (hb : ¬ s.Better b.tkBeginTop k) (hi : ¬ s.Better b.tkInside k)
    (he : ¬ s.Better b.tkEndTop k) (hc : Moved b (s.limitTopPrices k (b.maxSize / 2)).1 c)
    (hkeep : b.tkBeginTop ≠ (s.limitTopPrices k (b.maxSize / 2)).1 ∨ ∀ m, b.slot m = 0) :
    Holds (c.recentered k) d := by
  have hnb := h.window.not_better_recentered hk hb he
  have htidy := hc.tidy h.tidy hk hsafe hb hi he
  refine ⟨htidy.window, h.positive, h.keys, fun j => ?_, fun j x hx => ?_, htidy.slot_zero⟩
  · rw [hc.content_eq h.tidy hnb hkeep, h.content_eq]
  · -- what was spilled are quantities of the depth
    have hx' : c.bottomLevels.find? j = some x := hx
    by_cases hin : ¬ s.Better b.tkBeginTop j ∧
        s.Better (s.limitTopPrices k (b.maxSize / 2)).1 j ∧ ¬ s.Better j b.tkInside ∧
          b.slotOf j ≠ 0
    · rw [hc.find?_in j hin.1 hin.2.1 hin.2.2.1 hin.2.2.2] at hx'
      have hqty : d.qtyAt j = x := by
        rw [← h.content_eq, content_of_not_better hin.1]
        exact Option.some.inj hx'
      have hne : d.qtyAt j ≠ 0 := by
        rw [← h.content_eq, content_of_not_better hin.1]
        exact hin.2.2.2
      have hnonneg := Depth.qtyAt_nonneg h.positive j
      exact hqty ▸ ⟨by omega, Depth.fitsInt_qtyAt h.positive j⟩
    · rw [hc.find?_out j hin] at hx'
      exact h.bottom_positive j x hx'

end Move

end JayBeams.Itch5.ArrayBasedBookSide
