import JayBeams.Itch5.ArrayContent

/-!
# The operations of the array-based side

The steps of `add_order` and `reduce_order` take a side that represents a depth to one that represents
its update (`AddStep.represents`, `ReduceStep.represents`).

In a vector of a single element the shift in place clears the inside when more is added to it
(`addedTo`); a larger vector holds every quantity that was added.
-/

set_option autoImplicit false

namespace JayBeams.Itch5.ArrayBasedBookSide

open Containers

variable {s : Side}

/-! ## Additions -/

section Operations

variable {b c : ArrayBasedBookSide s} {d : Depth s} {k : Nat} {qty : Int}

theorem keys_addQty (h : Holds b d) (h0 : 0 < k) (hk : k < levelMax) (qty : Int) :
    ∀ j, (d.addQty k qty).find? j ≠ none → 0 < j ∧ j < levelMax := by
  intro j hj
  by_cases hjk : j = k
  · exact hjk ▸ ⟨h0, hk⟩
  · rw [Depth.find?_addQty, if_neg hjk] at hj
    exact h.keys j hj

theorem keys_reduceQty (h : Holds b d) (k : Nat) (qty : Int) :
    ∀ j, (d.reduceQty k qty).find? j ≠ none → 0 < j ∧ j < levelMax := by
  intro j hj
  by_cases hjk : j = k
  · subst hjk
    refine h.keys j fun hn => hj ?_
    rw [Depth.find?_reduceQty, if_pos rfl, hn]
    split_ifs <;> rfl
  · rw [Depth.find?_reduceQty, if_neg hjk] at hj
    exact h.keys j hj

/-- The depth after an addition to a side with a vector of the given size. -/
def addedTo (maxSize : Nat) (d : Depth s) (k : Nat) (qty : Int) : Depth s :=
  if maxSize = 1 ∧ d.bestKey = some k then Depth.addQty (d.erase k) k qty else d.addQty k qty

theorem addedTo_eq {maxSize : Nat} (h : ¬ (maxSize = 1 ∧ d.bestKey = some k)) (qty : Int) :
    addedTo maxSize d k qty = d.addQty k qty :=
  if_neg h

theorem bestKey_addQty_getD (d : Depth s) (hk : k ≤ levelMax) (qty : Int) :
    (d.addQty k qty).bestKey =
      some (if s.Better (d.bestKey.getD s.tkEmptyQuote) k then d.bestKey.getD s.tkEmptyQuote
        else k) := by
  rw [Depth.bestKey_addQty]
  cases hbest : d.bestKey with
  | none => rw [Option.getD_none, if_neg (Side.not_better_tkEmptyQuote hk)]
  | some j =>
      simp only [Option.getD_some]
      split_ifs <;> rfl

/-- The key of an addition is the inside unless the inside was better. -/
theorem Represents.bestKey_addedTo (h : Represents b d) (hk : k < levelMax) (maxSize : Nat)
    (qty : Int) :
    (addedTo maxSize d k qty).bestKey =
      some (if s.Better b.tkInside k then b.tkInside else k) := by
  rw [h.inside_eq]
  by_cases hone : maxSize = 1 ∧ d.bestKey = some k
  · have hrest : ¬ s.Better ((Depth.bestKey (d.erase k)).getD s.tkEmptyQuote) k := by
      cases hbest : (Depth.bestKey (d.erase k)) with
      | none => exact Side.not_better_tkEmptyQuote (Nat.le_of_lt hk)
      | some j =>
          have hj := (Depth.bestKey_eq_some_iff.1 hbest).1
          have hj' : d.find? j ≠ none := fun hn => hj <| by
            rw [OrderedMap.find?_erase, hn]
            split_ifs <;> rfl
          exact Depth.not_better_bestKey hone.2 hj'
    rw [addedTo, if_pos hone, bestKey_addQty_getD _ (Nat.le_of_lt hk), if_neg hrest, hone.2,
      Option.getD_some, if_neg (s.not_better_self k)]
  · rw [addedTo_eq hone, bestKey_addQty_getD _ (Nat.le_of_lt hk)]

/-- Moving the inside to a level that is not worse. -/
theorem Holds.setInside (h : Holds b d) (hb : ¬ s.Better b.tkBeginTop k)
    (hi : ¬ s.Better b.tkInside k) (hw : Window (b.setWindow k b.tkBeginTop b.tkEndTop)) :
    Holds (b.setWindow k b.tkBeginTop b.tkEndTop) d := by
  have htidy := h.tidy.setInside hb hi hw
  exact ⟨hw, h.positive, h.keys, h.content_eq, h.bottom_positive, htidy.slot_zero⟩

/-- Adding to the element of a level in the window. -/
theorem Holds.addTop (h : Holds b d) (hb : ¬ s.Better b.tkBeginTop k)
    (hi : ¬ s.Better k b.tkInside) (h0 : 0 < k) (hk : k < levelMax) (hq : 0 < qty)
    (hfit : FitsInt (d.qtyAt k + qty)) : Holds (b.addTop k qty) (d.addQty k qty) := by
  refine h.setTop hb hi (Depth.positive_addQty h.positive hq hfit) (keys_addQty h h0 hk qty) ?_
  intro j
  rw [Depth.qtyAt_addQty, ← content_of_not_better hb, h.content_eq]

/-- The shift in place clears the inside of a vector of a single element. -/
theorem Moved.holds_of_single (h : Represents b d) (h0 : 0 < k) (hk : k < levelMax)
    (hsize : b.maxSize = 1) (hbest : d.bestKey = some k) (hb : ¬ s.Better b.tkBeginTop k)
    (he : ¬ s.Better b.tkEndTop k) (hc : Moved b (s.limitTopPrices k (b.maxSize / 2)).1 c) :
    Holds (c.recentered k) (d.erase k) := by
  have hsafe : ¬ PastEnd s b.maxSize k := fun hp => absurd hp.2.1 (Nat.pos_iff_ne_zero.1 h0)
  obtain ⟨hw, hcsize⟩ := hc.window_recentered h.window hk hsafe hb he
  have hin : b.tkInside = k := by rw [h.inside_eq, hbest, Option.getD_some]
  have hbegin : b.tkBeginTop = k := (h.window.begin_of_single hsize).trans hin
  have hlim := limitTopPrices_of_single (s := s) h0 hk hsize
  have hslot : ∀ m, c.slot m = 0 := hc.slot_cleared h.tidy (hbegin.trans hlim.symm)
  have hfind : ∀ j, c.bottomLevels.find? j = b.bottomLevels.find? j := fun j =>
    hc.find?_out j fun hj => hj.1 (by rw [hbegin, ← hlim]; exact hj.2.1)
  have herase : ∀ j, (d.erase k).find? j ≠ none → j ≠ k ∧ d.find? j ≠ none := by
    intro j hj
    rw [OrderedMap.find?_erase] at hj
    by_cases hjk : j = k
    · exact absurd (if_pos hjk) hj
    · exact ⟨hjk, by rwa [if_neg hjk] at hj⟩
  refine ⟨hw, fun j x hx => ?_, fun j hj => h.keys j (herase j hj).2, fun j => ?_,
    fun j x hx => h.bottom_positive j x ((hfind j).symm.trans hx), fun m _ => hslot m⟩
  · obtain ⟨hjk, -⟩ := herase j (by simp [hx])
    rw [OrderedMap.find?_erase, if_neg hjk] at hx
    exact h.positive j x hx
  · rw [content_recentered, hcsize, hlim, Depth.qtyAt, Depth.qtyAt, hfind, hslot,
      OrderedMap.find?_erase]
    by_cases hj : s.Better k j
    · have hjk : j ≠ k := fun he => s.not_better_self k (he ▸ hj)
      rw [if_pos hj, if_neg hjk, h.bottom_find? (hbegin ▸ hj)]
    · rw [if_neg hj]
      by_cases hjk : j = k
      · rw [if_pos hjk]
        rfl
      · -- no level is better than the inside
        rw [if_neg hjk]
        have hnone : d.find? j = none := by
          by_contra hn
          exact hj ((Depth.bestKey_eq_some_iff.1 hbest).2 j hjk hn)
        rw [hnone]
        rfl

/-- An addition to a side keeps it in step with the depth, and returns whether the level added to is
the inside. -/
theorem AddStep.represents {r : Bool} (h : Represents b d) (h0 : 0 < k) (hk : k < levelMax)
    (hq : 0 < qty) (hfit : FitsInt (d.qtyAt k + qty)) (hstep : AddStep b k qty r c) :
    Represents c (addedTo b.maxSize d k qty) ∧
      r = decide ((addedTo b.maxSize d k qty).bestKey = some k) := by
  have hbest := h.bestKey_addedTo hk b.maxSize qty
  have hsafe : ¬ PastEnd s b.maxSize k := fun hp => absurd hp.2.1 (Nat.pos_iff_ne_zero.1 h0)
  have hnot : s.Better b.tkInside k → b.tkInside ≠ k := fun hb he =>
    s.not_better_self k (he ▸ hb)
  have hmany : ∀ j, d.bestKey = some j → b.tkInside = j := fun j hj => by
    rw [h.inside_eq, hj, Option.getD_some]
  cases hstep with
  | bottom hb =>
      -- The level goes to the map, and the inside stays ahead of it.
      have hbi : s.Better b.tkInside k :=
        Side.better_of_not_better_of_better h.window.not_better hb
      have hqty : b.bottomLevels.qtyAt k = d.qtyAt k := by
        rw [← h.content_eq, content_of_better hb]
      refine ⟨⟨?_, ?_⟩, ?_⟩
      · rw [addedTo_eq fun hs => hnot hbi (hmany k hs.2)]
        exact h.toHolds.setBottom hb (Or.inl hk) (Depth.positive_addQty h.positive hq hfit)
          (keys_addQty h.toHolds h0 hk qty)
          (Depth.positive_addQty h.bottom_positive hq (hqty.symm ▸ hfit))
          (fun j => Depth.qtyAt_addQty d k j qty)
          (fun j => hqty ▸ Depth.qtyAt_addQty b.bottomLevels k j qty)
      · rw [hbest, if_pos hbi]
        rfl
      · rw [hbest, if_pos hbi]
        simp [hnot hbi]
  | window hb hi =>
      -- The level is in the window behind the inside.
      refine ⟨⟨?_, ?_⟩, ?_⟩
      · rw [addedTo_eq fun hs => hnot hi (hmany k hs.2)]
        exact h.toHolds.addTop hb (Side.better_asymm hi) h0 hk hq hfit
      · rw [hbest, if_pos hi]
        rfl
      · rw [hbest, if_pos hi]
        simp [hnot hi]
  | inside hb hi he =>
      -- The level is the new inside, and the window reaches that far.
      have hlim := h.window.limits_of_better_end (Nat.le_of_lt hk) he
      have hw := h.window.setInside (Or.inl hk) hb
        (h.window.dist_lt_of_better_end (Nat.le_of_lt hk) hb he) hlim
      refine ⟨⟨?_, ?_⟩, ?_⟩
      · rw [addedTo_eq]
        · exact (h.toHolds.setInside hb hi hw).addTop hb (s.not_better_self k) h0 hk hq hfit
        · -- a window of width zero ends where it begins
          rintro ⟨hsize, -⟩
          have hwidth := hlim.width
          rw [hsize] at hwidth
          have hlt := (Side.dist_lt_iff hb hlim.order).2 he
          rw [hwidth] at hlt
          exact Nat.not_lt_zero _ hlt
      · rw [hbest, if_neg hi]
        rfl
      · rw [hbest, if_neg hi]
        simp
  | move hb hi he e hmoved =>
      refine ⟨⟨?_, ?_⟩, ?_⟩
      · -- With a window of one level the quantity of the level is lost on the way.
        by_cases hone : b.maxSize = 1 ∧ d.bestKey = some k
        · have hholds := hmoved.holds_of_single h h0 hk hone.1 hone.2 hb he
          rw [addedTo, if_pos hone]
          refine hholds.addTop hholds.window.not_better (s.not_better_self k) h0 hk hq ?_
          have hnonneg := Depth.qtyAt_nonneg h.positive k
          have hzero : Depth.qtyAt (d.erase k) k = 0 := by
            rw [Depth.qtyAt, OrderedMap.find?_erase, if_pos rfl, Option.getD_none]
          obtain ⟨hlow, hhigh⟩ := hfit
          exact ⟨by omega, by omega⟩
        · have hholds := hmoved.holds h.toHolds hk hsafe hb hi he (h.moves h0 hk he hone)
          rw [addedTo_eq hone]
          exact hholds.addTop hholds.window.not_better (s.not_better_self k) h0 hk hq hfit
      · rw [hbest, if_neg hi]
        rfl
      · rw [hbest, if_neg hi]
        simp

/-! ## Reductions -/

theorem reduced_eq {x : Int} (h0 : 0 ≤ x) (hx : FitsInt x) (hq : 0 < qty) (hfit : FitsInt qty) :
    reduced x qty = max 0 (x - qty) := by
  have hsub : int32 (x - qty) = x - qty := by
    apply int32_of_fits
    unfold FitsInt at *
    omega
  rw [reduced, hsub]
  split_ifs <;> omega

/-- Reducing the element of a level in the window. -/
theorem Holds.reduceTopLevel (h : Holds b d) (hb : ¬ s.Better b.tkBeginTop k)
    (hi : ¬ s.Better k b.tkInside) (hq : 0 < qty) (hfit : FitsInt qty) :
    Holds (b.reduceTopLevel k qty) (d.reduceQty k qty) := by
  refine h.setTop hb hi (Depth.positive_reduceQty h.positive k hq hfit)
    (keys_reduceQty h k qty) ?_
  intro j
  rw [Depth.qtyAt_reduceQty h.positive k j hq hfit, ← content_of_not_better hb, h.content_eq,
    reduced_eq (Depth.qtyAt_nonneg h.positive k) (Depth.fitsInt_qtyAt h.positive k) hq hfit]

/-- The refilled vector holds what the map held. -/
theorem Refilled.represents (h : Holds b d) (hz : ∀ m, b.slot m = 0)
    (hc : Refilled b.rewindowed c) (hw : Window c) : Represents c d := by
  have hfind : ∀ j, b.bottomLevels.find? j = d.find? j := by
    intro j
    by_cases hj : s.Better b.tkBeginTop j
    · exact h.bottom_find? hj
    · rw [h.window.find?_eq_none hj, eq_comm, h.find?_eq_none_iff, content_of_not_better hj]
      exact hz _
  have hbottom : b.bottomLevels = d := OrderedMap.ext_find? hfind
  have hbegin : c.tkBeginTop = b.rewindowed.tkBeginTop := by rw [hc.state_eq]
  have hinside : c.tkInside = d.bestKey.getD s.tkEmptyQuote := by
    rw [hc.state_eq, ← hbottom]
    rfl
  refine ⟨⟨hw, h.positive, h.keys, fun j => ?_, fun j x hx => ?_, fun m hm => ?_⟩, hinside⟩
  · by_cases hj : s.Better b.rewindowed.tkBeginTop j
    · rw [content_of_better (hbegin ▸ hj), Depth.qtyAt, hc.find?_out j hj]
      exact congrArg (fun e : Depth s => e.qtyAt j) hbottom
    · rw [content_of_not_better (hbegin ▸ hj), slotOf, hbegin, Depth.qtyAt, ← hfind]
      cases hx : b.bottomLevels.find? j with
      | some x => exact hc.slot_in j x hj hx
      | none =>
          refine (hc.slot_out _ fun i hi hf he => ?_).trans (hz _)
          rw [Side.dist_eq_iff hi hj] at he
          exact hf (he ▸ hx)
  · by_cases hj : s.Better b.rewindowed.tkBeginTop j
    · rw [hc.find?_out j hj] at hx
      exact h.bottom_positive j x hx
    · rw [hc.find?_in j hj] at hx
      exact absurd hx (by simp)
  · -- no level of the map is better than its first one
    refine (hc.slot_out m fun j hj hf he => ?_).trans (hz m)
    have hf' : d.find? j ≠ none := hfind j ▸ hf
    cases hbest : d.bestKey with
    | none => exact hf' (Depth.bestKey_eq_none_iff.1 hbest j)
    | some i =>
        rw [hbest, Option.getD_some] at hinside
        have hnb : ¬ s.Better b.rewindowed.tkBeginTop i := by
          rw [← hbegin, ← hinside]
          exact hw.not_better
        have hle := (Side.dist_le_iff hj hnb).2 (Depth.not_better_bestKey hbest hf')
        rw [hbegin, hinside] at hm
        omega

/-- The next inside is the best level left. -/
theorem NextInside.represents (h : Holds b d)
    (hz : b.slot (s.dist b.tkBeginTop b.tkInside) = 0) (hc : NextInside b c) : Represents c d := by
  have hw : Window c := (hc.window_kept h.window).1
  rcases hc with ⟨m, hm, hne, rfl⟩ | ⟨hlow, hr⟩
  · have hnb := s.not_better_levelAt b.tkBeginTop m
    have hdist := Side.dist_levelAt (h.window.reaches (Nat.le_of_lt hm.1))
    have hzero : ∀ j, m < j → b.slot j = 0 := fun j hj => hm.slot_zero h.tidy hz hj
    have hkey : d.find? (s.levelAt b.tkBeginTop m) ≠ none := by
      intro hn
      rw [h.find?_eq_none_iff, content_of_not_better hnb, slotOf, hdist] at hn
      exact hm.2.1 hn
    have hbest : d.bestKey = some (s.levelAt b.tkBeginTop m) := by
      refine Depth.bestKey_eq_some_iff.2 ⟨hkey, fun j hjm hj => ?_⟩
      by_cases hb : s.Better b.tkBeginTop j
      · exact Side.better_of_not_better_of_better hnb hb
      · by_contra hworse
        have hbetter : s.Better j (s.levelAt b.tkBeginTop m) := by
          by_contra hn
          exact hjm (Side.eq_of_not_better hn hworse)
        have hlt := (Side.dist_lt_iff hnb hb).2 hbetter
        rw [hdist] at hlt
        refine hj (h.find?_eq_none_iff.2 ?_)
        rw [content_of_not_better hb, slotOf, hzero _ hlt]
    refine ⟨⟨hw, h.positive, h.keys, h.content_eq, h.bottom_positive, fun j hj => ?_⟩, ?_⟩
    · have hj' : s.dist b.tkBeginTop (s.levelAt b.tkBeginTop m) < j := hj
      rw [hdist] at hj'
      exact hzero j hj'
    · rw [hbest]
      rfl
  · refine Refilled.represents h (fun m => ?_) hr hw
    rcases Nat.lt_trichotomy m (s.dist b.tkBeginTop b.tkInside) with hm | hm | hm
    · -- an element for the empty quote would be a level of the depth
      by_contra h0
      have hempty := hlow m hm h0
      have hslot := h.slot_eq (Nat.le_of_lt hm)
      rw [hempty] at hslot
      have hkey : d.find? s.tkEmptyQuote ≠ none := fun hn => by
        rw [(Depth.qtyAt_eq_zero_iff h.positive).2 hn] at hslot
        exact h0 hslot
      exact h.ne_empty hkey rfl
    · exact hm ▸ hz
    · exact h.slot_zero m hm

theorem Represents.bestKey_of_inside (h : Represents b d) (hi : k = b.tkInside)
    (hk : d.find? k ≠ none) : d.bestKey = some k := by
  cases hbest : d.bestKey with
  | none => exact absurd (Depth.bestKey_eq_none_iff.1 hbest k) hk
  | some j =>
      have hin := h.inside_eq
      rw [hbest, Option.getD_some] at hin
      rw [hi, hin]

/-- A reduction fails when the depth has no such level, and then changes nothing. Otherwise it keeps
the side in step with the depth, and returns whether the level was the inside. -/
theorem ReduceStep.represents {o : Option Bool} (h : Represents b d) (hq : 0 < qty)
    (hfit : FitsInt qty) (hstep : ReduceStep b k qty o c) :
    (o = none ∧ d.find? k = none ∧ c = b) ∨
      (o = some (decide (d.bestKey = some k)) ∧ d.find? k ≠ none ∧
        Represents c (d.reduceQty k qty)) := by
  have hnone : ¬ s.Better b.tkBeginTop k → b.slotOf k = 0 → d.find? k = none := fun hb h0 => by
    rw [h.find?_eq_none_iff, content_of_not_better hb, h0]
  have hreduced : ¬ s.Better b.tkBeginTop k →
      reduced (b.slotOf k) qty = max 0 (d.qtyAt k - qty) := fun hb => by
    rw [← content_of_not_better hb, h.content_eq, reduced_eq (Depth.qtyAt_nonneg h.positive k)
      (Depth.fitsInt_qtyAt h.positive k) hq hfit]
  have hbest : s.Better b.tkInside k → d.bestKey ≠ some k := fun hi he => by
    have hin := h.inside_eq
    rw [he, Option.getD_some] at hin
    exact s.not_better_self k (hin ▸ hi)
  cases hstep with
  | missingBottom hb hf => exact Or.inl ⟨rfl, (h.bottom_find? hb).symm.trans hf, rfl⟩
  | betterInside hb hi =>
      refine Or.inl ⟨rfl, ?_, rfl⟩
      by_contra hk
      exact h.not_better_inside hk hi
  | missingTop hb hi h0 => exact Or.inl ⟨rfl, hnone hb h0, rfl⟩
  | bottom hb hf =>
      right
      -- A level of the map is worse than the inside, which therefore stays.
      have hfind := h.bottom_find? hb
      have hqty : b.bottomLevels.qtyAt k = d.qtyAt k := by rw [Depth.qtyAt, hfind]; rfl
      have hne := hbest (Side.better_of_not_better_of_better h.window.not_better hb)
      refine ⟨by simp [hne], hfind ▸ hf, ⟨h.toHolds.setBottom hb (h.window.bottom_worse k hf).2
        (Depth.positive_reduceQty h.positive k hq hfit) (keys_reduceQty h.toHolds k qty)
        (Depth.positive_reduceQty h.bottom_positive k hq hfit)
        (fun j => Depth.qtyAt_reduceQty h.positive k j hq hfit)
        (fun j => hqty ▸ Depth.qtyAt_reduceQty h.bottom_positive k j hq hfit), ?_⟩⟩
      rw [Depth.bestKey_reduceQty h.positive hq hfit (Or.inl hne)]
      exact h.inside_eq
  | window hb hi h0 =>
      right
      -- So is a level of the window behind the inside.
      have hne := hbest hi
      refine ⟨by simp [hne], fun hn => h0 ?_,
        ⟨h.toHolds.reduceTopLevel hb (Side.better_asymm hi) hq hfit, ?_⟩⟩
      · rw [← content_of_not_better hb, ← h.find?_eq_none_iff, hn]
      · rw [Depth.bestKey_reduceQty h.positive hq hfit (Or.inl hne)]
        exact h.inside_eq
  | inside hi h0 hr =>
      right
      -- Something is left at the inside.
      have hb : ¬ s.Better b.tkBeginTop k := hi ▸ h.window.not_better
      have hkey : d.find? k ≠ none := fun hn => h0 <| by
        rw [← content_of_not_better hb, ← h.find?_eq_none_iff, hn]
      have hbk := h.bestKey_of_inside hi hkey
      have hlt : qty < d.qtyAt k := by
        rw [hreduced hb] at hr
        omega
      refine ⟨by simp [hbk], hkey,
        ⟨h.toHolds.reduceTopLevel hb (hi ▸ s.not_better_self _) hq hfit, ?_⟩⟩
      rw [Depth.bestKey_reduceQty h.positive hq hfit (Or.inr hlt)]
      exact h.inside_eq
  | removed hi h0 hr c hc =>
      right
      -- The inside is used up, and the next one is searched for in a window with a zero there.
      have hb : ¬ s.Better b.tkBeginTop k := hi ▸ h.window.not_better
      have hkey : d.find? k ≠ none := fun hn => h0 <| by
        rw [← content_of_not_better hb, ← h.find?_eq_none_iff, hn]
      have hbk := h.bestKey_of_inside hi hkey
      have hholds := h.toHolds.reduceTopLevel hb (hi ▸ s.not_better_self _) hq hfit
      refine ⟨by simp [hbk], hkey, hc.represents hholds ?_⟩
      have hlen : s.dist b.tkBeginTop k < b.topLevels.length :=
        h.window.length_eq ▸ h.window.dist_lt_maxSize hb (hi ▸ s.not_better_self _)
      show (b.setTop (s.dist b.tkBeginTop k) (reduced (b.slotOf k) qty)).slot
        (s.dist b.tkBeginTop b.tkInside) = 0
      rw [slot_setTop _ _ _ _ hlen, if_pos (by rw [hi]), hr]

end Operations

end JayBeams.Itch5.ArrayBasedBookSide
