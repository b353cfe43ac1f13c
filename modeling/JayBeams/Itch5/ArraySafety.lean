import JayBeams.Itch5.ArrayMoves

/-!
# Safety of the array-based side

`AddStep` and `ReduceStep` list what `add_order` and `reduce_order` can do to a side whose window is
sound, and `addOrder_run` and `reduceOrder_run` show that the operations do one of these things,
without an index past the end of the vector, a level outside the range of levels or a failed
assertion. Each of the steps keeps `Window`.

There is one exception. A sell at price zero is the best sell there can be, and the window around it
ends at level zero, one past its best level. The index of the order is then the width of the window,
which is past the end of the vector when the vector has exactly that size.
-/

set_option autoImplicit false

namespace JayBeams.Itch5.ArrayBasedBookSide

open Containers Machines

variable {s : Side}

/-! ## Adding -/

/-- The state after `move_top_to_bottom` with the window redefined around `k`. -/
def recentered (c : ArrayBasedBookSide s) (k : Nat) : ArrayBasedBookSide s :=
  c.setWindow k (s.limitTopPrices k (c.maxSize / 2)).1 (s.limitTopPrices k (c.maxSize / 2)).2

/-- The quantity added to the element of a level. -/
def addTop (b : ArrayBasedBookSide s) (k : Nat) (qty : Int) : ArrayBasedBookSide s :=
  b.setTop (s.dist b.tkBeginTop k) (int32 (b.slotOf k + qty))

/-- What `add_order` can do, by where the level is, with its result and the state it leaves. -/
inductive AddStep (b : ArrayBasedBookSide s) (k : Nat) (qty : Int) :
    Bool → ArrayBasedBookSide s → Prop where
  | bottom (h : s.Better b.tkBeginTop k) :
      AddStep b k qty false (b.setBottom (b.bottomLevels.addQty k qty))
  | window (h : ¬ s.Better b.tkBeginTop k) (hi : s.Better b.tkInside k) :
      AddStep b k qty false (b.addTop k qty)
  | inside (h : ¬ s.Better b.tkBeginTop k) (hi : ¬ s.Better b.tkInside k)
      (he : s.Better b.tkEndTop k) :
      AddStep b k qty true ((b.setWindow k b.tkBeginTop b.tkEndTop).addTop k qty)
  | move (h : ¬ s.Better b.tkBeginTop k) (hi : ¬ s.Better b.tkInside k)
      (he : ¬ s.Better b.tkEndTop k) (c : ArrayBasedBookSide s)
      (hc : Moved b (s.limitTopPrices k (b.maxSize / 2)).1 c) :
      AddStep b k qty true ((c.recentered k).addTop k qty)

/-- The only order that the window around its level does not hold. -/
def PastEnd (s : Side) (maxSize k : Nat) : Prop :=
  s = .sell ∧ k = 0 ∧ windowWidth maxSize = maxSize

theorem windowWidth_le (maxSize : Nat) : windowWidth maxSize ≤ maxSize := by
  show min (2 * (maxSize / 2)) levelMax ≤ maxSize
  omega

section Add

variable {b : ArrayBasedBookSide s} {k maxSize : Nat}

theorem Window.dist_lt_maxSize (hw : Window b) (h : ¬ s.Better b.tkBeginTop k)
    (hk : ¬ s.Better k b.tkInside) : s.dist b.tkBeginTop k < b.maxSize :=
  Nat.lt_of_le_of_lt ((Side.dist_le_iff h hw.not_better).2 hk) hw.dist_lt

/-- A window that ends after a level is not the empty one. -/
theorem Window.limits_of_better_end (hw : Window b) (hk : k ≤ levelMax)
    (he : s.Better b.tkEndTop k) : Limits s b.maxSize b.tkBeginTop b.tkEndTop := by
  rcases hw.limits with ⟨-, hend, -⟩ | hlim
  · exact absurd (hend ▸ he) (Side.not_better_tkEmptyQuote hk)
  · exact hlim

/-- A level before the end of the window has an element in the vector. -/
theorem Window.dist_lt_of_better_end (hw : Window b) (hk : k ≤ levelMax)
    (h : ¬ s.Better b.tkBeginTop k) (he : s.Better b.tkEndTop k) :
    s.dist b.tkBeginTop k < b.maxSize := by
  have hlim := hw.limits_of_better_end hk he
  have hlt := (Side.dist_lt_iff h hlim.order).2 he
  have hwidth := hlim.width
  have hle := windowWidth_le b.maxSize
  omega

/-- The window around a level at or past the end of the window is not worse than it. -/
theorem Window.not_better_recentered (hw : Window b) (hk : k < levelMax)
    (h : ¬ s.Better b.tkBeginTop k) (he : ¬ s.Better b.tkEndTop k) :
    ¬ s.Better b.tkBeginTop (s.limitTopPrices k (b.maxSize / 2)).1 := by
  by_cases hempty : k = s.tkEmptyQuote
  · rw [hempty, limitTopPrices_empty]
    rwa [hempty] at h
  · have hnew := limitTopPrices_limits b.maxSize hempty hk
    have hnb := limitTopPrices_not_better b.maxSize hempty hk
    rcases hw.limits with ⟨hbegin, -, -⟩ | hlim
    · rw [hbegin]
      exact Side.not_better_tkEmptyQuote hnew.begin_le
    · refine hlim.begin_not_better hnew (Side.not_better_trans he ?_)
      exact limitTopPrices_end_not_worse b.maxSize hempty hk

/-- The index of an order in the window around its level. -/
theorem dist_recentered (hk : s.ValidLevel k) (hsafe : ¬ PastEnd s maxSize k) (hpos : 0 < maxSize) :
    s.dist (s.limitTopPrices k (maxSize / 2)).1 k < maxSize := by
  have hle := windowWidth_le maxSize
  by_cases hempty : k = s.tkEmptyQuote
  · rw [hempty, limitTopPrices_empty, Side.dist_self]
    exact hpos
  · obtain ⟨hdist, hlt⟩ := dist_limitTopPrices_le maxSize hempty (hk.resolve_right hempty)
    -- Only price zero can be a whole window away from where its window begins.
    rcases Nat.eq_zero_or_pos k with h0 | h0
    · have hne : windowWidth maxSize ≠ maxSize := by
        cases s with
        | buy => exact absurd h0 hempty
        | sell => exact fun hw => hsafe ⟨rfl, h0, hw⟩
      omega
    · rcases Nat.eq_zero_or_pos (windowWidth maxSize) with hz | hz
      · omega
      · have := hlt h0 hz
        omega

theorem limitTopPrices_limits_or (maxSize : Nat) (hk : s.ValidLevel k) :
    ((s.limitTopPrices k (maxSize / 2)).1 = s.tkEmptyQuote ∧
        (s.limitTopPrices k (maxSize / 2)).2 = s.tkEmptyQuote ∧ k = s.tkEmptyQuote) ∨
      Limits s maxSize (s.limitTopPrices k (maxSize / 2)).1
        (s.limitTopPrices k (maxSize / 2)).2 := by
  by_cases hempty : k = s.tkEmptyQuote
  · left
    rw [hempty, limitTopPrices_empty]
    exact ⟨rfl, rfl, rfl⟩
  · exact Or.inr (limitTopPrices_limits maxSize hempty (hk.resolve_right hempty))

/-- The window around a valid level reaches it. -/
theorem not_better_limitTopPrices (maxSize : Nat) (hk : s.ValidLevel k) :
    ¬ s.Better (s.limitTopPrices k (maxSize / 2)).1 k := by
  by_cases hempty : k = s.tkEmptyQuote
  · rw [hempty, limitTopPrices_empty]
    exact s.not_better_self _
  · exact limitTopPrices_not_better maxSize hempty (hk.resolve_right hempty)

theorem limitTopPrices_le (maxSize : Nat) (hk : s.ValidLevel k) :
    (s.limitTopPrices k (maxSize / 2)).1 ≤ levelMax := by
  rcases limitTopPrices_limits_or maxSize hk with ⟨h, -⟩ | h
  · exact h ▸ s.tkEmptyQuote_le
  · exact h.begin_le

/-! ### Runs -/

/-- The end of `add_order` for a level in the vector. -/
theorem addTop_run (h : ¬ s.Better b.tkBeginTop k)
    (hlen : s.dist b.tkBeginTop k < b.topLevels.length) (qty : Int) (r : Bool) :
    EStateM.run (do
      let relPx ← liftExcept (s.levelToRelative b.tkBeginTop k)
      let x ← readTop relPx
      writeTop relPx (int32 (x + qty))
      return r) b = .ok r (b.addTop k qty) := by
  simp only [EStateM.run_bind, Side.levelToRelative_eq h, liftExcept, EStateM.run_pure,
    readTop_run hlen, writeTop_run hlen]
  rfl

theorem validateOperationParams_run {operation : String} {qty : Int} {px : Nat} (hq : 0 < qty)
    (hpx : px < maxPriceFieldValue price4) (b : ArrayBasedBookSide s) :
    (validateOperationParams operation qty px).run b = .ok () b := by
  rw [validateOperationParams, if_pos ⟨hq, Nat.zero_le px, hpx⟩]
  rfl

/-- The first tests of `add_order`. -/
theorem addOrder_eq {px : Nat} {qty : Int} (hq : 0 < qty) (hpx : px < maxPriceFieldValue price4)
    (b : ArrayBasedBookSide s) :
    (addOrder px qty).run b =
      if s.Better b.tkBeginTop (level px) then
        .ok false (b.setBottom (b.bottomLevels.addQty (level px) qty))
      else if ¬ s.Better b.tkInside (level px) then (addInside (level px) qty).run b
      else EStateM.run (do
        let relPx ← liftExcept (s.levelToRelative b.tkBeginTop (level px))
        let x ← readTop relPx
        writeTop relPx (int32 (x + qty))
        return false) b := by
  simp only [addOrder, EStateM.run_bind, validateOperationParams_run hq hpx, priceLevels_price4,
    liftExcept, EStateM.run_pure, EStateM.run_get]
  split_ifs <;> rfl

/-- An order past the end of the window redefines it, and is then an order in the new window. -/
theorem addInside_move (hw : Window b) (hk : k < levelMax) (h : ¬ s.Better b.tkBeginTop k)
    (he : ¬ s.Better b.tkEndTop k) (qty : Int) :
    ∃ c, Moved b (s.limitTopPrices k (b.maxSize / 2)).1 c ∧ c.maxSize = b.maxSize ∧
      (addInside k qty).run b = EStateM.run (do
        let relPx ← liftExcept (s.levelToRelative (c.recentered k).tkBeginTop k)
        let x ← readTop relPx
        writeTop relPx (int32 (x + qty))
        return true) (c.recentered k) := by
  obtain ⟨c, hc, hmoved⟩ := moveTopToBottom_run hw (hw.not_better_recentered hk h he)
  have hsize : c.maxSize = b.maxSize := by rw [hmoved.state_eq]
  refine ⟨c, hmoved, hsize, ?_⟩
  simp only [addInside, EStateM.run_bind, EStateM.run_get, EStateM.run_modify, he,
    not_false_eq_true, if_true, hc]
  -- The new window is computed from the size, which the move leaves alone.
  rw [← hsize]
  rfl

theorem addOrder_run (hw : Window b) {px : Nat} {qty : Int} (hq : 0 < qty)
    (hpx : px < maxPriceFieldValue price4) (hsafe : ¬ PastEnd s b.maxSize (level px)) :
    ∃ r c, (addOrder px qty).run b = .ok r c ∧ AddStep b (level px) qty r c := by
  have hlen := hw.length_eq
  have hlt : level px < levelMax := level_lt_levelMax hpx
  rw [addOrder_eq hq hpx]
  -- From here on the price only matters through its level.
  generalize level px = k at *
  by_cases h : s.Better b.tkBeginTop k
  · rw [if_pos h]
    exact ⟨_, _, rfl, .bottom h⟩
  · rw [if_neg h]
    by_cases hi : s.Better b.tkInside k
    · rw [if_neg (not_not.2 hi), addTop_run h (by
        rw [hlen]
        exact hw.dist_lt_maxSize h (Side.better_asymm hi))]
      exact ⟨_, _, rfl, .window h hi⟩
    · rw [if_pos hi]
      by_cases he : s.Better b.tkEndTop k
      -- Only the inside moves, and the window stays where it is.
      · have hb : ¬ s.Better (b.setWindow k b.tkBeginTop b.tkEndTop).tkBeginTop k := h
        refine ⟨_, _, ?_, .inside h hi he⟩
        rw [← addTop_run hb (by
          rw [setWindow_topLevels, hlen]
          exact hw.dist_lt_of_better_end (Nat.le_of_lt hlt) h he)]
        simp only [addInside, EStateM.run_bind, EStateM.run_get, EStateM.run_modify, he, not_true,
          if_false, EStateM.run_pure]
        rfl
      · obtain ⟨c, hmoved, hsize, hrun⟩ := addInside_move hw hlt h he qty
        -- The level is outside the window, which is redefined around it.
        have hb : ¬ s.Better (c.recentered k).tkBeginTop k :=
          not_better_limitTopPrices c.maxSize (Or.inl hlt)
        refine ⟨_, _, ?_, .move h hi he c hmoved⟩
        rw [hrun, addTop_run hb]
        show s.dist (s.limitTopPrices k (c.maxSize / 2)).1 k < c.topLevels.length
        rw [hmoved.length_eq, hlen, hsize]
        exact dist_recentered (Or.inl hlt) hsafe (Nat.zero_lt_of_lt hw.dist_lt)

/-- A sell at price zero is written past the end of a vector of the width of the window. -/
theorem addOrder_pastEnd {b : ArrayBasedBookSide .sell} (hw : Window b) {qty : Int} (hq : 0 < qty)
    (hwidth : windowWidth b.maxSize = b.maxSize) :
    ∃ c, (addOrder 0 qty).run b = .error (.outOfRange b.maxSize b.maxSize) c := by
  have hnb : ∀ j, ¬ Side.sell.Better j 0 := fun j => Nat.not_lt_zero j
  obtain ⟨c, hmoved, hsize, hrun⟩ := addInside_move hw (by decide) (hnb _) (hnb _) qty
  have hdist : Side.sell.dist (c.recentered 0).tkBeginTop 0 = b.maxSize := by
    show Side.sell.dist (Side.sell.limitTopPrices 0 (c.maxSize / 2)).1 0 = _
    rw [hsize, dist_limitTopPrices_sell_zero, hwidth]
  have htop : (c.recentered 0).topLevels.length = b.maxSize :=
    hmoved.length_eq.trans hw.length_eq
  have hread : (readTop b.maxSize).run (c.recentered 0) =
      .error (.outOfRange b.maxSize b.maxSize) (c.recentered 0) := by
    -- The relative level is the size of the vector, one past its last element.
    have hnone : (c.recentered 0).topLevels[b.maxSize]? = none :=
      List.getElem?_eq_none (Nat.le_of_eq htop)
    simp only [readTop, EStateM.run_bind, EStateM.run_get, top, hnone, liftExcept, htop]
    rfl
  refine ⟨c.recentered 0, ?_⟩
  have hlevel : level 0 = 0 := by decide
  rw [addOrder_eq hq (by decide), hlevel, if_neg (hnb _), if_pos (hnb _), hrun]
  simp only [EStateM.run_bind, Side.levelToRelative_eq (hnb _), liftExcept, EStateM.run_pure,
    hdist, hread]

end Add

/-! ## Reducing -/

/-- The quantity left in an element of the vector; it cannot be negative. -/
def reduced (x qty : Int) : Int := if int32 (x - qty) < 0 then 0 else int32 (x - qty)

/-- The element of a level replaced by what is left of it. -/
def reduceTopLevel (b : ArrayBasedBookSide s) (k : Nat) (qty : Int) : ArrayBasedBookSide s :=
  b.setTop (s.dist b.tkBeginTop k) (reduced (b.slotOf k) qty)

/-- What `reduce_order` can do, by where the level is, with its result and the state it leaves. The
result `none` stands for a `feed_error`. -/
inductive ReduceStep (b : ArrayBasedBookSide s) (k : Nat) (qty : Int) :
    Option Bool → ArrayBasedBookSide s → Prop where
  | missingBottom (h : s.Better b.tkBeginTop k) (hf : b.bottomLevels.find? k = none) :
      ReduceStep b k qty none b
  | betterInside (h : ¬ s.Better b.tkBeginTop k) (hi : s.Better k b.tkInside) :
      ReduceStep b k qty none b
  | missingTop (h : ¬ s.Better b.tkBeginTop k) (hi : ¬ s.Better k b.tkInside)
      (h0 : b.slotOf k = 0) : ReduceStep b k qty none b
  | bottom (h : s.Better b.tkBeginTop k) (hf : b.bottomLevels.find? k ≠ none) :
      ReduceStep b k qty (some false) (b.setBottom (b.bottomLevels.reduceQty k qty))
  | window (h : ¬ s.Better b.tkBeginTop k) (hi : s.Better b.tkInside k)
      (h0 : b.slotOf k ≠ 0) : ReduceStep b k qty (some false) (b.reduceTopLevel k qty)
  | inside (hi : k = b.tkInside) (h0 : b.slotOf k ≠ 0) (hr : reduced (b.slotOf k) qty ≠ 0) :
      ReduceStep b k qty (some true) (b.reduceTopLevel k qty)
  | removed (hi : k = b.tkInside) (h0 : b.slotOf k ≠ 0) (hr : reduced (b.slotOf k) qty = 0)
      (c : ArrayBasedBookSide s) (hc : NextInside (b.reduceTopLevel k qty) c) :
      ReduceStep b k qty (some true) c

section Reduce

variable {b : ArrayBasedBookSide s} {k : Nat}

theorem Window.setTop (hw : Window b) (i : Nat) (qty : Int) : Window (b.setTop i qty) :=
  ⟨(length_setTop b i qty).trans hw.length_eq, hw.begin_le, hw.inside_valid, hw.not_better,
    hw.dist_lt, hw.bottom_worse, hw.limits⟩

/-- The level around which the window is redefined. -/
theorem Window.best_valid (hw : Window b) {k : Nat}
    (hk : b.bottomLevels.bestKey.getD s.tkEmptyQuote = k) :
    s.ValidLevel k ∧ ¬ PastEnd s b.maxSize k := by
  cases hbest : b.bottomLevels.bestKey with
  | none =>
      rw [hbest, Option.getD_none] at hk
      refine ⟨Or.inr hk.symm, ?_⟩
      -- Nothing is left on the side, and the empty quote of the sells is not price zero.
      rintro ⟨rfl, h0, -⟩
      exact absurd (hk.trans h0) (by decide)
  | some j =>
      rw [hbest, Option.getD_some] at hk
      subst hk
      obtain ⟨hworse, hvalid⟩ := hw.bottom_worse j (Depth.bestKey_eq_some_iff.1 hbest).1
      refine ⟨hvalid, ?_⟩
      -- No sell is better than one at price zero, so that one is never in the map.
      rintro ⟨rfl, rfl, -⟩
      exact absurd hworse (Nat.not_lt_zero _)

/-- The levels that go back into the vector have an element there. -/
theorem Window.dist_rewindowed (hw : Window b) (j : Nat)
    (hj : ¬ s.Better b.rewindowed.tkBeginTop j) (hf : b.bottomLevels.find? j ≠ none) :
    s.dist b.rewindowed.tkBeginTop j < b.maxSize := by
  cases hbest : b.bottomLevels.bestKey with
  | none => exact absurd (Depth.bestKey_eq_none_iff.1 hbest j) hf
  | some k =>
      have hk : b.bottomLevels.bestKey.getD s.tkEmptyQuote = k := by rw [hbest, Option.getD_some]
      obtain ⟨hvalid, hsafe⟩ := hw.best_valid hk
      simp only [rewindowed, hk, setWindow_tkBeginTop] at hj ⊢
      refine Nat.lt_of_le_of_lt ?_ (dist_recentered hvalid hsafe (Nat.zero_lt_of_lt hw.dist_lt))
      exact (Side.dist_le_iff hj (not_better_limitTopPrices b.maxSize hvalid)).2
        (Depth.not_better_bestKey hbest hf)

theorem reduceBottom_run (px : Nat) (k : Nat) (qty : Int) (h : s.Better b.tkBeginTop k) :
    (∃ e, (reduceBottom px k qty).run b = .error (.feedError e) b ∧ ReduceStep b k qty none b) ∨
      ∃ r c, (reduceBottom px k qty).run b = .ok r c ∧ ReduceStep b k qty (some r) c := by
  cases hf : b.bottomLevels.find? k with
  | none =>
      obtain ⟨e, he⟩ : ∃ e, (reduceBottom px k qty).run b = .error (.feedError e) b := by
        simp only [reduceBottom, EStateM.run_bind, EStateM.run_get, hf]
        exact ⟨_, rfl⟩
      exact Or.inl ⟨e, he, .missingBottom h hf⟩
  | some x =>
      refine Or.inr ⟨_, _, ?_, .bottom h (by simp [hf])⟩
      simp only [reduceBottom, EStateM.run_bind, EStateM.run_get, hf, EStateM.run_modify,
        EStateM.run_pure]
      rfl

theorem reduceTop_run (hw : Window b) (px : Nat) {k : Nat} (qty : Int) (h : ¬ s.Better b.tkBeginTop k) :
    (∃ e, (reduceTop px k qty).run b = .error (.feedError e) b ∧ ReduceStep b k qty none b) ∨
      ∃ r c, (reduceTop px k qty).run b = .ok r c ∧ ReduceStep b k qty (some r) c := by
  have hlen := hw.length_eq
  by_cases hi : s.Better k b.tkInside
  · obtain ⟨e, he⟩ : ∃ e, (reduceTop px k qty).run b = .error (.feedError e) b := by
      simp only [reduceTop, EStateM.run_bind, EStateM.run_get, hi, if_true, EStateM.run_throw]
      exact ⟨_, rfl⟩
    exact Or.inl ⟨e, he, .betterInside h hi⟩
  · have hlt : s.dist b.tkBeginTop k < b.topLevels.length :=
      hlen ▸ hw.dist_lt_maxSize h hi
    have hread : (readTop (s.dist b.tkBeginTop k)).run b = .ok (b.slotOf k) b := readTop_run hlt
    by_cases h0 : b.slotOf k = 0
    · obtain ⟨e, he⟩ : ∃ e, (reduceTop px k qty).run b = .error (.feedError e) b := by
        simp only [reduceTop, EStateM.run_bind, EStateM.run_get, hi, if_false, EStateM.run_pure,
          Side.levelToRelative_eq h, liftExcept, hread, h0, if_true, EStateM.run_throw]
        exact ⟨_, rfl⟩
      exact Or.inl ⟨e, he, .missingTop h hi h0⟩
    · right
      have hrun : (reduceTop px k qty).run b =
          if k ≠ b.tkInside then .ok false (b.reduceTopLevel k qty)
          else if reduced (b.slotOf k) qty = 0 then
            (do nextInside; return true : EStateM _ _ Bool).run (b.reduceTopLevel k qty)
          else .ok true (b.reduceTopLevel k qty) := by
        have hred : reduced (b.slotOf k) qty =
            if int32 (b.slotOf k - qty) < 0 then 0 else int32 (b.slotOf k - qty) := rfl
        simp only [reduceTop, EStateM.run_bind, EStateM.run_get, hi, if_false, EStateM.run_pure,
          Side.levelToRelative_eq h, liftExcept, hread, h0, ← hred]
        simp only [writeTop_run hlt, reduceTopLevel]
        split_ifs <;> rfl
      rw [hrun]
      -- Only a change of the inside is reported, and only its removal moves the inside.
      by_cases hne : k = b.tkInside
      · rw [if_neg (not_not.2 hne)]
        by_cases hr : reduced (b.slotOf k) qty = 0
        · have hw' : Window (b.reduceTopLevel k qty) := hw.setTop _ _
          obtain ⟨c, hc, hnext⟩ := nextInside_run hw' fun j hj hf => by
            rw [hw'.length_eq]
            exact hw'.dist_rewindowed j hj hf
          refine ⟨true, c, ?_, .removed hne h0 hr c hnext⟩
          rw [if_pos hr, EStateM.run_bind, hc]
          rfl
        · exact ⟨_, _, if_neg hr, .inside hne h0 hr⟩
      -- The level is neither better than the inside nor the inside.
      · have hb : s.Better b.tkInside k := by
          by_contra hb
          exact hne (Side.eq_of_not_better hi hb)
        exact ⟨_, _, if_pos hne, .window h hb h0⟩

theorem reduceOrder_run (hw : Window b) {px : Nat} {qty : Int} (hq : 0 < qty)
    (hpx : px < maxPriceFieldValue price4) :
    (∃ e, (reduceOrder px qty).run b = .error (.feedError e) b ∧
        ReduceStep b (level px) qty none b) ∨
      ∃ r c, (reduceOrder px qty).run b = .ok r c ∧ ReduceStep b (level px) qty (some r) c := by
  have hpre : (reduceOrder px qty).run b =
      if s.Better b.tkBeginTop (level px) then (reduceBottom px (level px) qty).run b
      else (reduceTop px (level px) qty).run b := by
    simp only [reduceOrder, EStateM.run_bind, validateOperationParams_run hq hpx,
      priceLevels_price4, liftExcept, EStateM.run_pure, EStateM.run_get]
    split_ifs <;> rfl
  rw [hpre]
  by_cases h : s.Better b.tkBeginTop (level px)
  · rw [if_pos h]
    exact reduceBottom_run px (level px) qty h
  · rw [if_neg h]
    exact reduceTop_run hw px qty h

end Reduce

/-! ## The window is kept -/

section Kept

variable {b c : ArrayBasedBookSide s} {k : Nat} {qty : Int} {r : Bool}

theorem Window.make (cfg : ArrayBasedConfig) (h : cfg.validate = true) :
    Window (ArrayBasedBookSide.make cfg s) := by
  have hpos : ¬ cfg.maxSize ≤ 0 := by simpa [ArrayBasedConfig.validate] using h
  refine ⟨List.length_replicate, s.tkEmptyQuote_le, Or.inr rfl, s.not_better_self _, ?_,
    fun k hk => absurd rfl hk, Or.inl ⟨rfl, rfl, rfl⟩⟩
  show s.dist s.tkEmptyQuote s.tkEmptyQuote < cfg.maxSize.toNat
  rw [Side.dist_self]
  omega

theorem Window.setBottom (hw : Window b) {d : Depth s}
    (h : ∀ k, d.find? k ≠ none → s.Better b.tkBeginTop k ∧ s.ValidLevel k) :
    Window (b.setBottom d) :=
  ⟨hw.length_eq, hw.begin_le, hw.inside_valid, hw.not_better, hw.dist_lt, h, hw.limits⟩

/-- Moving the inside within the window. -/
theorem Window.setInside (hw : Window b) (hk : s.ValidLevel k) (hb : ¬ s.Better b.tkBeginTop k)
    (hlt : s.dist b.tkBeginTop k < b.maxSize)
    (hlim : Limits s b.maxSize b.tkBeginTop b.tkEndTop) :
    Window (b.setWindow k b.tkBeginTop b.tkEndTop) :=
  ⟨hw.length_eq, hw.begin_le, hk, hb, hlt, hw.bottom_worse, Or.inr hlim⟩

/-- A window around a valid level, with every worse level in the map. -/
theorem Window.recentered (hlen : c.topLevels.length = c.maxSize) (hpos : 0 < c.maxSize)
    (hk : s.ValidLevel k) (hsafe : ¬ PastEnd s c.maxSize k)
    (hworse : ∀ j, c.bottomLevels.find? j ≠ none →
      s.Better (s.limitTopPrices k (c.maxSize / 2)).1 j ∧ s.ValidLevel j) :
    Window (c.recentered k) :=
  ⟨hlen, limitTopPrices_le c.maxSize hk, hk, not_better_limitTopPrices c.maxSize hk,
    dist_recentered hk hsafe hpos, hworse, limitTopPrices_limits_or c.maxSize hk⟩

/-- The levels between the worst one of the window and the inside. -/
theorem Window.valid_of_between (hw : Window b) {j : Nat} (h : ¬ s.Better b.tkBeginTop j)
    (hi : ¬ s.Better j b.tkInside) : s.ValidLevel j := by
  refine hw.inside_valid.of_not_better ?_ hi
  have hbegin := hw.begin_le
  have hinside := hw.inside_valid.le
  cases s with
  | buy =>
      simp only [Side.better_buy] at h hi
      omega
  | sell =>
      simp only [Side.better_sell] at h hi
      omega

theorem Moved.window_recentered (hw : Window b) (hk : k < levelMax)
    (hsafe : ¬ PastEnd s b.maxSize k) (h : ¬ s.Better b.tkBeginTop k)
    (he : ¬ s.Better b.tkEndTop k) (hc : Moved b (s.limitTopPrices k (b.maxSize / 2)).1 c) :
    Window (c.recentered k) ∧ c.maxSize = b.maxSize := by
  have hsize : c.maxSize = b.maxSize := by rw [hc.state_eq]
  have hnb := hw.not_better_recentered hk h he
  refine ⟨Window.recentered ?_ ?_ (Or.inl hk) (hsize ▸ hsafe) ?_, hsize⟩
  · rw [hc.length_eq, hsize, hw.length_eq]
  · exact hsize ▸ Nat.zero_lt_of_lt hw.dist_lt
  · intro j hj
    rw [hsize]
    by_cases hin : ¬ s.Better b.tkBeginTop j ∧
        s.Better (s.limitTopPrices k (b.maxSize / 2)).1 j ∧ ¬ s.Better j b.tkInside ∧
          b.slotOf j ≠ 0
    · obtain ⟨h₁, h₂, h₃, -⟩ := hin
      exact ⟨h₂, hw.valid_of_between h₁ h₃⟩
    · rw [hc.find?_out j hin] at hj
      obtain ⟨hworse, hvalid⟩ := hw.bottom_worse j hj
      exact ⟨Side.better_of_not_better_of_better hnb hworse, hvalid⟩

theorem AddStep.window_kept (hw : Window b) (hk : k < levelMax) (hsafe : ¬ PastEnd s b.maxSize k)
    (h : AddStep b k qty r c) : Window c ∧ c.maxSize = b.maxSize := by
  cases h with
  | bottom h =>
      refine ⟨hw.setBottom fun j hj => ?_, rfl⟩
      rw [Depth.find?_addQty] at hj
      by_cases hjk : j = k
      · exact hjk ▸ ⟨h, Or.inl hk⟩
      · rw [if_neg hjk] at hj
        exact hw.bottom_worse j hj
  | window h hi => exact ⟨hw.setTop _ _, rfl⟩
  | inside h hi he =>
      have hlt := hw.dist_lt_of_better_end (Nat.le_of_lt hk) h he
      have hlim := hw.limits_of_better_end (Nat.le_of_lt hk) he
      exact ⟨(hw.setInside (Or.inl hk) h hlt hlim).setTop _ _, rfl⟩
  | move h hi he d hd =>
      have hw' := hd.window_recentered hw hk hsafe h he
      exact ⟨hw'.1.setTop _ _, hw'.2⟩

theorem NextInside.window_kept (hw : Window b) (h : NextInside b c) :
    Window c ∧ c.maxSize = b.maxSize := by
  rcases h with ⟨m, hm, hne, rfl⟩ | ⟨hz, hr⟩
  · have hle : ¬ s.Better (s.levelAt b.tkBeginTop m) b.tkInside := by
      have hge := Side.not_better_levelAt_of_le (s := s) (a := b.tkBeginTop) (Nat.le_of_lt hm.1)
      rwa [Side.levelAt_dist hw.not_better] at hge
    have hnb := s.not_better_levelAt b.tkBeginTop m
    refine ⟨hw.setInside (hw.valid_of_between hnb hle) hnb (hw.dist_lt_maxSize hnb hle) ?_, rfl⟩
    rcases hw.limits with ⟨hbegin, -, hinside⟩ | hlim
    · have hlt := hm.1
      rw [hbegin, hinside, Side.dist_self] at hlt
      exact absurd hlt (Nat.not_lt_zero m)
    · exact hlim
  · generalize hk : b.bottomLevels.bestKey.getD s.tkEmptyQuote = k
    obtain ⟨hvalid, hsafe⟩ := hw.best_valid hk
    have hbegin : b.rewindowed.tkBeginTop = (s.limitTopPrices k (b.maxSize / 2)).1 := by
      simp only [rewindowed, hk, setWindow_tkBeginTop]
    have hc : c = ArrayBasedBookSide.recentered
        { b with topLevels := c.topLevels, bottomLevels := c.bottomLevels } k := by
      rw [hr.state_eq]
      simp only [rewindowed, hk]
      rfl
    rw [hc]
    refine ⟨Window.recentered (hr.length_eq.trans hw.length_eq) (Nat.zero_lt_of_lt hw.dist_lt)
      hvalid hsafe fun j hj => ?_, rfl⟩
    by_cases hj' : s.Better b.rewindowed.tkBeginTop j
    · have hj₂ : c.bottomLevels.find? j ≠ none := hj
      rw [hr.find?_out j hj'] at hj₂
      exact ⟨hbegin ▸ hj', (hw.bottom_worse j hj₂).2⟩
    · exact absurd (hr.find?_in j hj') hj

theorem ReduceStep.window_kept (hw : Window b) {o : Option Bool} (h : ReduceStep b k qty o c) :
    Window c ∧ c.maxSize = b.maxSize := by
  cases h with
  | missingBottom h hf => exact ⟨hw, rfl⟩
  | betterInside h hi => exact ⟨hw, rfl⟩
  | missingTop h hi h0 => exact ⟨hw, rfl⟩
  | bottom h hf =>
      refine ⟨hw.setBottom fun j hj => ?_, rfl⟩
      by_cases hjk : j = k
      · exact hjk ▸ hw.bottom_worse k hf
      · rw [Depth.find?_reduceQty, if_neg hjk] at hj
        exact hw.bottom_worse j hj
  | window h hi h0 => exact ⟨hw.setTop _ _, rfl⟩
  | inside hi h0 hr => exact ⟨hw.setTop _ _, rfl⟩
  | removed hi h0 hr c hc =>
      exact NextInside.window_kept (b := b.reduceTopLevel k qty) (hw.setTop _ _) hc

end Kept

/-! ## Runs -/

/-- An operation that the vector does not hold. -/
def BadOp (s : Side) (maxSize : Nat) : BookOp → Prop
  | .add px _ => PastEnd s maxSize (level px)
  | .reduce _ _ => False

section Runs

variable {b : ArrayBasedBookSide s} {op : BookOp}

/-- One operation keeps the window and raises nothing but `feed_error`. -/
theorem step_safe (hw : Window b) (hop : op.Accepted) (hsafe : ¬ BadOp s b.maxSize op) :
    (Window ((sideMachine ArrayBasedBookSide s).step b op).2 ∧
        ((sideMachine ArrayBasedBookSide s).step b op).2.maxSize = b.maxSize) ∧
      ∀ e, ((sideMachine ArrayBasedBookSide s).step b op).1 = .error e → e.isFault = false := by
  cases op with
  | add px qty =>
      obtain ⟨r, c, hrun, hstep⟩ := addOrder_run hw hop.1 hop.2 hsafe
      have heq : (sideMachine ArrayBasedBookSide s).step b (.add px qty) = (.ok r, c) :=
        Machine.ofAction_step_ok hrun
      rw [heq]
      exact ⟨hstep.window_kept hw (level_lt_levelMax hop.2) hsafe, fun e he => by simp at he⟩
  | reduce px qty =>
      rcases reduceOrder_run hw hop.1 hop.2 with ⟨f, hrun, hstep⟩ | ⟨r, c, hrun, hstep⟩
      · have heq : (sideMachine ArrayBasedBookSide s).step b (.reduce px qty) =
            (.error (.feedError f), b) := Machine.ofAction_step_error hrun
        rw [heq]
        refine ⟨hstep.window_kept hw, fun e he => ?_⟩
        cases he
        rfl
      · have heq : (sideMachine ArrayBasedBookSide s).step b (.reduce px qty) = (.ok r, c) :=
          Machine.ofAction_step_ok hrun
        rw [heq]
        exact ⟨hstep.window_kept hw, fun e he => by simp at he⟩

/-- A run without an operation that the vector does not hold ends with a sound window. -/
theorem run_window {maxSize : Nat} {ops : List BookOp} (hw : Window b) (hsize : b.maxSize = maxSize)
    (hops : ∀ op ∈ ops, op.Accepted ∧ ¬ BadOp s maxSize op) :
    (∀ o ∈ ((sideMachine ArrayBasedBookSide s).run b ops).1, ∀ e, o = .error e →
        e.isFault = false) ∧
      Window ((sideMachine ArrayBasedBookSide s).run b ops).2 := by
  have halong := Machine.along_of_forall (sideMachine ArrayBasedBookSide s)
    (P := fun _ op => op.Accepted ∧ ¬ BadOp s maxSize op) (fun op hop _ => hops op hop) b
  have hkept : ∀ (c : ArrayBasedBookSide s) (op : BookOp), Window c ∧ c.maxSize = maxSize →
      op.Accepted ∧ ¬ BadOp s maxSize op →
      Window ((sideMachine ArrayBasedBookSide s).step c op).2 ∧
        ((sideMachine ArrayBasedBookSide s).step c op).2.maxSize = maxSize := by
    rintro c op ⟨hc, hcsize⟩ ⟨hop, hsafe⟩
    have hstep := (step_safe hc hop (hcsize ▸ hsafe)).1
    exact ⟨hstep.1, hstep.2.trans hcsize⟩
  refine ⟨?_, (Machine.run_invariant hkept halong ⟨hw, hsize⟩).1⟩
  refine Machine.run_outputs hkept ?_ halong ⟨hw, hsize⟩
  rintro c op ⟨hc, hcsize⟩ ⟨hop, hsafe⟩ e he
  exact (step_safe hc hop (hcsize ▸ hsafe)).2 e he

/-- A run with an operation that the vector does not hold has an index past the end of it. -/
theorem run_pastEnd {maxSize : Nat} {ops : List BookOp} {b : ArrayBasedBookSide .sell}
    (hw : Window b) (hsize : b.maxSize = maxSize) (hwidth : windowWidth maxSize = maxSize)
    (hops : ∀ op ∈ ops, op.Accepted) {qty : Int} (hbad : .add 0 qty ∈ ops) :
    .error (.outOfRange maxSize maxSize) ∈
      ((sideMachine ArrayBasedBookSide .sell).run b ops).1 := by
  induction ops generalizing b with
  | nil => simp at hbad
  | cons op ops ih =>
      rw [Machine.run_cons, List.mem_cons]
      have hop := hops op (by simp)
      by_cases hsafe : BadOp .sell maxSize op
      · left
        cases op with
        | add px q =>
            have hpx : px = 0 := by
              by_contra h
              exact absurd hsafe.2.1 (Nat.pos_iff_ne_zero.1 (level_pos (Nat.pos_of_ne_zero h)))
            subst hpx
            obtain ⟨c, hc⟩ := addOrder_pastEnd hw hop.1 (by rw [hsize, hwidth])
            have heq : (sideMachine ArrayBasedBookSide .sell).step b (.add 0 q) =
                (.error (.outOfRange b.maxSize b.maxSize), c) := Machine.ofAction_step_error hc
            rw [heq, hsize]
        | reduce px q => exact absurd hsafe (fun h => h)
      · right
        obtain ⟨⟨hw', hsize'⟩, -⟩ := step_safe hw hop (hsize ▸ hsafe)
        refine ih hw' (hsize'.trans hsize) (fun op' h => hops op' (by simp [h])) ?_
        rcases List.mem_cons.1 hbad with rfl | h
        · exact absurd ⟨rfl, by decide, hwidth⟩ hsafe
        · exact h

theorem windowWidth_eq_iff (maxSize : Nat) :
    windowWidth maxSize = maxSize ↔ maxSize % 2 = 0 ∧ maxSize ≤ levelMax := by
  have hwidth : windowWidth maxSize = min (2 * (maxSize / 2)) levelMax := rfl
  omega

/-- For a validated configuration, the operations of a run stay inside the vector and the range of
levels and fail no assertion, except when a sell at price zero is added to a book with an even
number of levels, not more than there are levels. -/
theorem run_safe_iff (cfg : ArrayBasedConfig) (hcfg : cfg.validate = true) (s : Side)
    (ops : List BookOp) (hops : ∀ op ∈ ops, op.Accepted) :
    (∀ o ∈ ((sideMachine ArrayBasedBookSide s).run (make cfg s) ops).1, ∀ e, o = .error e →
        e.isFault = false) ↔
      ¬ (s = .sell ∧ cfg.maxSize % 2 = 0 ∧ cfg.maxSize ≤ levelMax ∧
        ∃ qty, BookOp.add 0 qty ∈ ops) := by
  have hpos : ¬ cfg.maxSize ≤ 0 := by simpa [ArrayBasedConfig.validate] using hcfg
  have hwidth : windowWidth cfg.maxSize.toNat = cfg.maxSize.toNat ↔
      cfg.maxSize % 2 = 0 ∧ cfg.maxSize ≤ levelMax := by
    rw [windowWidth_eq_iff]
    omega
  have hw : Window (make cfg s) := Window.make cfg hcfg
  constructor
  · rintro hsafe ⟨rfl, heven, hle, qty, hadd⟩
    have hfault := run_pastEnd hw rfl (hwidth.2 ⟨heven, hle⟩) hops hadd
    exact Bool.noConfusion (hsafe _ hfault _ rfl)
  · intro hcond
    refine (run_window hw rfl fun op hop => ⟨hops op hop, fun hbad => hcond ?_⟩).1
    cases op with
    | add px qty =>
        obtain ⟨hs, h0, hwid⟩ := hbad
        have hpx : px = 0 := by
          by_contra h
          exact absurd h0 (Nat.pos_iff_ne_zero.1 (level_pos (Nat.pos_of_ne_zero h)))
        obtain ⟨heven, hle⟩ := hwidth.1 hwid
        exact ⟨hs, heven, hle, qty, hpx ▸ hop⟩
    | reduce px qty => exact absurd hbad (fun h => h)

theorem run_safe_buy :
    (ArrayBasedConfig.mk 2).validate = true ∧
      ∀ o ∈ ((sideMachine ArrayBasedBookSide .buy).run (make ⟨2⟩ .buy) [.add 0 5, .reduce 0 5]).1,
        ∀ e, o = .error e → e.isFault = false :=
  ⟨rfl, (run_safe_iff ⟨2⟩ rfl .buy [.add 0 5, .reduce 0 5]
    (by simp [BookOp.Accepted, BookOp.qty, BookOp.px, maxPriceFieldValue_price4])).2
    fun h => Side.noConfusion h.1⟩

/-- A sell at price zero is written to the third of two elements. -/
theorem run_unsafe_sell :
    (ArrayBasedConfig.mk 2).validate = true ∧ (BookOp.add 0 5).Accepted ∧
      ((sideMachine ArrayBasedBookSide .sell).run (make ⟨2⟩ .sell) [.add 0 5]).1 =
        [.error (.outOfRange 2 2)] := by
  refine ⟨rfl, by simp [BookOp.Accepted, BookOp.qty, BookOp.px, maxPriceFieldValue_price4], ?_⟩
  decide

end Runs

end JayBeams.Itch5.ArrayBasedBookSide
