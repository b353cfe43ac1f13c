import JayBeams.Itch5.ArrayRecords
import JayBeams.Itch5.LawfulBook

/-!
# Reductions of the array-based side

`reduce_order` leaves the quantity of every other level as it was, also when it takes the inside away
and redefines the window (`ReduceStep.content_eq`). Nothing is asked of the quantities recorded
before, except that each of them is an `int` (`Ints`), which every operation keeps.
-/

set_option autoImplicit false

namespace JayBeams.Itch5

open Containers Machines

theorem fitsInt_int32 (x : Int) : FitsInt (int32 x) := by
  unfold FitsInt int32
  omega

namespace ArrayBasedBookSide

variable {s : Side}

/-! ## The quantities are integers of the source -/

/-- Every quantity in the vector and in the map is an `int`. -/
structure Ints (b : ArrayBasedBookSide s) : Prop where
  slot : ∀ m, FitsInt (b.slot m)
  bottom : ∀ j x, b.bottomLevels.find? j = some x → FitsInt x

section Ints

variable {b c : ArrayBasedBookSide s} {k : Nat} {qty : Int}

theorem fitsInt_zero : FitsInt 0 := by decide

theorem Ints.make (cfg : ArrayBasedConfig) : Ints (ArrayBasedBookSide.make cfg s) := by
  constructor
  · intro m
    rw [slot_make]
    exact fitsInt_zero
  · intro j x hx
    cases hx

theorem Ints.setTop (h : Ints b) {i : Nat} (hi : i < b.topLevels.length) (hq : FitsInt qty) :
    Ints (b.setTop i qty) := by
  refine ⟨fun m => ?_, h.bottom⟩
  rw [slot_setTop _ _ _ _ hi]
  split_ifs
  · exact hq
  · exact h.slot m

theorem Ints.setWindow (h : Ints b) (tkInside tkBegin tkEnd : Nat) :
    Ints (b.setWindow tkInside tkBegin tkEnd) :=
  ⟨h.slot, h.bottom⟩

theorem Ints.addTop (h : Ints b) (hk : s.dist b.tkBeginTop k < b.topLevels.length) (qty : Int) :
    Ints (b.addTop k qty) :=
  h.setTop hk (fitsInt_int32 _)

theorem Ints.reduceTopLevel (h : Ints b) (hk : s.dist b.tkBeginTop k < b.topLevels.length)
    (qty : Int) : Ints (b.reduceTopLevel k qty) := by
  apply h.setTop hk
  rw [reduced]
  split_ifs
  · exact fitsInt_zero
  · exact fitsInt_int32 _

theorem Ints.recorded (h : Ints b) (hw : Window b) (k : Nat) : FitsInt (b.recorded k) := by
  rw [hw.recorded_eq, content]
  split_ifs
  · rw [Depth.qtyAt]
    cases hx : b.bottomLevels.find? k with
    | none => exact fitsInt_zero
    | some x => exact h.bottom k x hx
  · exact h.slot _

/-- What goes from the vector to the map was in the vector. -/
theorem Moved.ints (h : Ints b) {tkMax : Nat} (hc : Moved b tkMax c) : Ints c := by
  constructor
  · intro m
    rcases Nat.lt_or_ge (s.dist b.tkBeginTop b.tkInside) m with hm | hm
    · rw [hc.slot_rest m hm]
      exact h.slot m
    · by_cases hzero : s.Better tkMax b.tkInside ∨ b.tkBeginTop = tkMax ∨
          s.dist b.tkBeginTop b.tkInside < m + s.dist b.tkBeginTop tkMax
      · rw [hc.slot_zero m hm hzero]
        exact fitsInt_zero
      · -- The element was moved here from further up.
        obtain ⟨hall, hne, hlt⟩ : ¬ s.Better tkMax b.tkInside ∧ b.tkBeginTop ≠ tkMax ∧
            ¬ s.dist b.tkBeginTop b.tkInside < m + s.dist b.tkBeginTop tkMax := by
          simpa only [not_or] using hzero
        rw [hc.slot_shift hall hne m (Nat.le_of_not_lt hlt)]
        exact h.slot _
  · intro j x hx
    -- A level of the map was one before, or it spilled from the vector.
    by_cases hin : ¬ s.Better b.tkBeginTop j ∧ s.Better tkMax j ∧ ¬ s.Better j b.tkInside ∧
        b.slotOf j ≠ 0
    · rw [hc.find?_in j hin.1 hin.2.1 hin.2.2.1 hin.2.2.2] at hx
      cases hx
      exact h.slot _
    · rw [hc.find?_out j hin] at hx
      exact h.bottom j x hx

/-- What goes from the map to the vector was in the map. -/
theorem Refilled.ints (h : Ints b) (hc : Refilled b c) : Ints c := by
  constructor
  · intro m
    by_cases hin : ∃ k, ¬ s.Better b.tkBeginTop k ∧ b.bottomLevels.find? k ≠ none ∧
        s.dist b.tkBeginTop k = m
    · obtain ⟨k, hk, hf, rfl⟩ := hin
      obtain ⟨x, hx⟩ := Option.ne_none_iff_exists'.1 hf
      rw [hc.slot_in k x hk hx]
      exact h.bottom k x hx
    · rw [hc.slot_out m fun k hk hf hd => hin ⟨k, hk, hf, hd⟩]
      exact h.slot m
  · intro j x hx
    by_cases hj : s.Better b.tkBeginTop j
    · rw [hc.find?_out j hj] at hx
      exact h.bottom j x hx
    · rw [hc.find?_in j hj] at hx
      cases hx

theorem NextInside.ints (h : Ints b) (hstep : NextInside b c) : Ints c := by
  rcases hstep with ⟨m, -, -, rfl⟩ | ⟨-, hr⟩
  · exact h.setWindow _ _ _
  · exact hr.ints (h.setWindow _ _ _)

theorem AddStep.ints (h : Ints b) (hw : Window b) (hk : k < levelMax)
    (hsafe : ¬ PastEnd s b.maxSize k) {r : Bool} (hstep : AddStep b k qty r c) : Ints c := by
  have hlen := hw.length_eq
  cases hstep with
  | bottom hb =>
      refine ⟨h.slot, fun j x hx => ?_⟩
      rw [setBottom_bottomLevels, Depth.find?_addQty] at hx
      split_ifs at hx with hjk
      · cases hx
        -- Only the level added changes, and its sum is an `int`.
        exact fitsInt_int32 _
      · exact h.bottom j x hx
  | window hb hi =>
      have hlt := hw.dist_lt_maxSize hb (Side.better_asymm hi)
      exact h.addTop (hlen ▸ hlt) qty
  | inside hb hi he =>
      have hlt := hw.dist_lt_of_better_end (Nat.le_of_lt hk) hb he
      exact (h.setWindow _ _ _).addTop (hlen ▸ hlt) qty
  | move hb hi he d hmoved =>
      have hwin := hmoved.window_recentered hw hk hsafe hb he
      have hlt : s.dist (d.recentered k).tkBeginTop k < (d.recentered k).topLevels.length :=
        hwin.1.length_eq ▸ hwin.1.dist_lt
      exact ((hmoved.ints h).setWindow _ _ _).addTop hlt qty

theorem ReduceStep.ints (h : Ints b) (hw : Window b) {o : Option Bool}
    (hstep : ReduceStep b k qty o c) : Ints c := by
  have hlen := hw.length_eq
  cases hstep with
  | missingBottom hb hf => exact h
  | betterInside hb hi => exact h
  | missingTop hb hi h0 => exact h
  | bottom hb hf =>
      refine ⟨h.slot, fun j x hx => ?_⟩
      rw [setBottom_bottomLevels, Depth.find?_reduceQty] at hx
      split_ifs at hx with hjk hrest
      · rw [Option.map_eq_some_iff] at hx
        obtain ⟨y, -, rfl⟩ := hx
        exact fitsInt_int32 _
      · exact h.bottom j x hx
  | window hb hi h0 =>
      have hlt := hw.dist_lt_maxSize hb (Side.better_asymm hi)
      exact h.reduceTopLevel (hlen ▸ hlt) qty
  | inside hi h0 hr =>
      subst hi
      exact h.reduceTopLevel (hlen ▸ hw.dist_lt) qty
  | removed hi h0 hr d hnext =>
      subst hi
      -- The quantities that move with the window were `int`s before.
      exact hnext.ints (h.reduceTopLevel (hlen ▸ hw.dist_lt) qty)

end Ints

/-! ## Reductions -/

section Reductions

variable {b c : ArrayBasedBookSide s} {k : Nat} {qty : Int}

/-- An element that counts as no level is that of the empty quote, and the window begins there. -/
theorem Window.begin_of_levelAt (hw : Window b) {m : Nat}
    (hm : m < s.dist b.tkBeginTop b.tkInside) (hempty : s.levelAt b.tkBeginTop m = s.tkEmptyQuote) :
    b.tkBeginTop = s.tkEmptyQuote := by
  have hbegin := hw.begin_le
  have hreach := hw.reaches (Nat.le_of_lt hm)
  cases s with
  | buy =>
      simp only [Side.levelAt, Side.tkEmptyQuote] at hempty ⊢
      omega
  | sell =>
      simp only [Side.levelAt, Side.tkEmptyQuote, Side.Reaches] at hempty hreach ⊢
      omega

/-- Nothing is worse than a window that begins at the level of the empty quote. -/
theorem Window.bottom_none_of_begin (hw : Window b) (h : b.tkBeginTop = s.tkEmptyQuote) (k : Nat) :
    b.bottomLevels.find? k = none := by
  by_contra hf
  obtain ⟨hworse, hvalid⟩ := hw.bottom_worse k hf
  rw [h] at hworse
  exact Side.not_better_tkEmptyQuote hvalid.le hworse

/-- A vector of zeros is refilled with what the map held. -/
theorem Refilled.content_eq_qtyAt (hc : Refilled b.rewindowed c) (hz : ∀ m, b.slot m = 0)
    (j : Nat) : c.content j = b.bottomLevels.qtyAt j := by
  have hbegin : c.tkBeginTop = b.rewindowed.tkBeginTop := by rw [hc.state_eq]
  by_cases hj : s.Better b.rewindowed.tkBeginTop j
  · rw [content_of_better (hbegin ▸ hj), Depth.qtyAt, hc.find?_out j hj]
    rfl
  · rw [content_of_not_better (hbegin ▸ hj), slotOf, hbegin, Depth.qtyAt]
    cases hx : b.bottomLevels.find? j with
    | some x => exact hc.slot_in j x hj hx
    | none =>
        refine (hc.slot_out _ fun i hi hf he => ?_).trans (hz _)
        rw [Side.dist_eq_iff hi hj] at he
        exact hf (he ▸ hx)

/-- No level changes when the next inside is looked for. -/
theorem NextInside.content_eq (h : Tidy b) (hz : b.slot (s.dist b.tkBeginTop b.tkInside) = 0)
    (hstep : NextInside b c) (j : Nat) : c.content j = b.content j := by
  rcases hstep with ⟨m, -, -, rfl⟩ | ⟨hlow, hr⟩
  · rfl
  · by_cases hempty : b.tkBeginTop = s.tkEmptyQuote
    · -- the map is empty and the window stays where it is
      have hnone := h.window.bottom_none_of_begin hempty
      have hbest : b.bottomLevels.bestKey = none := Depth.bestKey_eq_none_iff.2 hnone
      have hbegin : b.rewindowed.tkBeginTop = b.tkBeginTop := by
        rw [rewindowed, hbest, Option.getD_none, setWindow_tkBeginTop, limitTopPrices_empty, hempty]
      have hbegin' : c.tkBeginTop = b.tkBeginTop := by rw [hr.state_eq, hbegin]
      have hslot : ∀ m, c.slot m = b.slot m := fun m =>
        hr.slot_out m fun k _ hf _ => hf (hnone k)
      by_cases hj : s.Better b.tkBeginTop j
      · rw [content_of_better hj, content_of_better (hbegin' ▸ hj), Depth.qtyAt,
          hr.find?_out j (hbegin ▸ hj)]
        rfl
      · rw [content_of_not_better hj, content_of_not_better (hbegin' ▸ hj), slotOf, slotOf, hslot,
          hbegin']
    · have hzero : ∀ m, b.slot m = 0 := by
        intro m
        rcases Nat.lt_trichotomy m (s.dist b.tkBeginTop b.tkInside) with hlt | heq | hgt
        · by_contra h0
          exact hempty (h.window.begin_of_levelAt hlt (hlow m hlt h0))
        · rw [heq, hz]
        · exact h.slot_zero m hgt
      rw [hr.content_eq_qtyAt hzero, content]
      split_ifs with hj
      · rfl
      · rw [slotOf, hzero, Depth.qtyAt, h.window.find?_eq_none hj, Option.getD_none]

/-- What is left in the element of a level. -/
theorem content_reduceTopLevel (hw : Window b) (hk : ¬ s.Better b.tkBeginTop k)
    (hi : ¬ s.Better k b.tkInside) (qty : Int) (j : Nat) :
    (b.reduceTopLevel k qty).content j =
      if j = k then reduced (b.content k) qty else b.content j := by
  have hlen : s.dist b.tkBeginTop k < b.topLevels.length :=
    hw.length_eq ▸ hw.dist_lt_maxSize hk hi
  rw [reduceTopLevel, content_setTop hk hlen, content_of_not_better hk]

/-- What is left of a level in the map. -/
theorem qtyAt_reduceQty_reduced {d : Depth s} (hk : d.find? k ≠ none) (qty : Int) (j : Nat) :
    (d.reduceQty k qty).qtyAt j = if j = k then reduced (d.qtyAt k) qty else d.qtyAt j := by
  obtain ⟨x, hx⟩ := Option.ne_none_iff_exists'.1 hk
  rw [Depth.qtyAt, Depth.find?_reduceQty]
  by_cases hjk : j = k
  · rw [if_pos hjk, if_pos hjk, Depth.qtyAt, hx, Option.getD_some, reduced]
    split_ifs with hle hlt hlt
    · rfl
    · exact Int.le_antisymm (Int.not_lt.1 hlt) hle
    · exact absurd (Int.le_of_lt hlt) hle
    · rfl
  · rw [if_neg hjk, if_neg hjk, Depth.qtyAt]

/-- A reduction that is done changes the quantity of its level and of no other. -/
theorem ReduceStep.content_eq (h : Tidy b) {r : Bool} (hstep : ReduceStep b k qty (some r) c)
    (j : Nat) : c.content j = if j = k then reduced (b.content k) qty else b.content j := by
  cases hstep with
  | bottom hb hf =>
      rw [content_setBottom, qtyAt_reduceQty_reduced hf, content_of_better hb]
      by_cases hj : s.Better b.tkBeginTop j
      · rw [if_pos hj, content_of_better hj]
      · have hjk : j ≠ k := fun he => hj (he ▸ hb)
        rw [if_neg hj, if_neg hjk]
  | window hb hi h0 => exact content_reduceTopLevel h.window hb (Side.better_asymm hi) qty j
  | inside hi h0 hr =>
      subst hi
      exact content_reduceTopLevel h.window h.window.not_better (s.not_better_self _) qty j
  | removed hi h0 hr c hnext =>
      subst hi
      have hlen : s.dist b.tkBeginTop b.tkInside < b.topLevels.length :=
        h.window.length_eq ▸ h.window.dist_lt
      have hset := h.setTop h.window.not_better (s.not_better_self _)
        (reduced (b.slotOf b.tkInside) qty)
      rw [hnext.content_eq hset]
      · exact content_reduceTopLevel h.window h.window.not_better (s.not_better_self _) qty j
      · show (b.setTop _ _).slot (s.dist b.tkBeginTop b.tkInside) = 0
        rw [slot_setTop _ _ _ _ hlen, if_pos rfl, hr]

end Reductions

end ArrayBasedBookSide

end JayBeams.Itch5
