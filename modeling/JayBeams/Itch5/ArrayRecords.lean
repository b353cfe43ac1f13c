import JayBeams.Itch5.ArrayContent

/-!
# What the array-based side records

A level is recorded in the vector or in the map. `add_order` changes the quantity recorded for the
level of the order and no other one, wherever the window goes (`Records`), as long as the window
moves or the vector is empty. An order past the end of the window for which the window is redefined
where it was makes the shift in place clear the vector (`ClearsVector`).

The statements are about the sides reached by a run of operations, accepted or not, in which no
operation was a fault. Nothing is asked of the quantities recorded before.
-/

set_option autoImplicit false

namespace JayBeams.Itch5.ArrayBasedBookSide

open Containers Machines

variable {s : Side}

/-- The quantity recorded for a level in the vector, zero for the levels worse than the window. -/
def topQty (b : ArrayBasedBookSide s) (k : Nat) : Int :=
  if s.Better b.tkBeginTop k then 0 else b.slotOf k

/-- The quantity recorded for a level in the vector and in the map. -/
def recorded (b : ArrayBasedBookSide s) (k : Nat) : Int := b.topQty k + b.bottomLevels.qtyAt k

/-- The quantity recorded for a level grows by `qty`, that of every other level is unchanged, and no
level is recorded in both structures. -/
structure Records (b c : ArrayBasedBookSide s) (k : Nat) (qty : Int) : Prop where
  grows : c.recorded k = b.recorded k + qty
  others : ∀ j, j ≠ k → c.recorded j = b.recorded j
  apart : ∀ j, c.bottomLevels.find? j = none ∨ c.topQty j = 0

section Recorded

variable {b c : ArrayBasedBookSide s} {k : Nat} {qty : Int}

theorem Window.recorded_eq (hw : Window b) (k : Nat) : b.recorded k = b.content k := by
  rw [recorded, topQty, content]
  by_cases hk : s.Better b.tkBeginTop k
  · rw [if_pos hk, if_pos hk, Int.zero_add]
  · rw [if_neg hk, if_neg hk, Depth.qtyAt, hw.find?_eq_none hk, Option.getD_none, Int.add_zero]

theorem Window.apart (hw : Window b) (k : Nat) :
    b.bottomLevels.find? k = none ∨ b.topQty k = 0 := by
  by_cases hk : s.Better b.tkBeginTop k
  · exact Or.inr (if_pos hk)
  · exact Or.inl (hw.find?_eq_none hk)

/-- With sound windows before and after, what is left to show is about the content. -/
theorem records_iff (hb : Window b) (hc : Window c) :
    Records b c k qty ↔
      ∀ j, c.content j = if j = k then b.content k + qty else b.content j := by
  constructor
  · intro h j
    rw [← hc.recorded_eq, ← hb.recorded_eq, ← hb.recorded_eq]
    by_cases hjk : j = k
    · rw [if_pos hjk, hjk, h.grows]
    · rw [if_neg hjk, h.others j hjk]
  · intro h
    refine ⟨?_, fun j hjk => ?_, hc.apart⟩
    · rw [hc.recorded_eq, hb.recorded_eq, h, if_pos rfl]
    · rw [hc.recorded_eq, hb.recorded_eq, h, if_neg hjk]

end Recorded

/-! ## The vector is zero past the inside -/

section Kept

variable {b c : ArrayBasedBookSide s} {k : Nat} {qty : Int}

theorem Tidy.make (cfg : ArrayBasedConfig) (hcfg : cfg.validate = true) :
    Tidy (ArrayBasedBookSide.make cfg s) :=
  ⟨Window.make cfg hcfg, fun m _ => slot_make cfg m⟩

theorem AddStep.tidy (h : Tidy b) {r : Bool} (hk : k < levelMax) (hsafe : ¬ PastEnd s b.maxSize k)
    (hstep : AddStep b k qty r c) : Tidy c := by
  have hw := (hstep.window_kept h.window hk hsafe).1
  cases hstep with
  | bottom hb => exact ⟨hw, h.slot_zero⟩
  | window hb hi => exact h.setTop hb (Side.better_asymm hi) _
  | inside hb hi he =>
      have hlt := h.window.dist_lt_of_better_end (Nat.le_of_lt hk) hb he
      have hlim := h.window.limits_of_better_end (Nat.le_of_lt hk) he
      have hset := h.setInside hb hi (h.window.setInside (Or.inl hk) hb hlt hlim)
      exact hset.setTop hset.window.not_better (s.not_better_self k) _
  | move hb hi he d hmoved =>
      have hset := hmoved.tidy h hk hsafe hb hi he
      exact hset.setTop hset.window.not_better (s.not_better_self k) _

/-- The removed inside was the last element that is not zero, or the next one is the inside. -/
theorem NextInside.tidy (h : Tidy b) (hz : b.slot (s.dist b.tkBeginTop b.tkInside) = 0)
    (hstep : NextInside b c) : Tidy c := by
  have hw : Window c := (hstep.window_kept h.window).1
  rcases hstep with ⟨m, hm, -, rfl⟩ | ⟨hlow, hr⟩
  · refine ⟨hw, fun j hj => ?_⟩
    have hj' : s.dist b.tkBeginTop (s.levelAt b.tkBeginTop m) < j := hj
    rw [Side.dist_levelAt (h.window.reaches (Nat.le_of_lt hm.1))] at hj'
    exact hm.slot_zero h hz hj'
  · refine ⟨hw, fun m hm => ?_⟩
    have hbegin : c.tkBeginTop = b.rewindowed.tkBeginTop := by rw [hr.state_eq]
    have hinside : c.tkInside = b.bottomLevels.bestKey.getD s.tkEmptyQuote := by
      rw [hr.state_eq]
      rfl
    have hout : c.slot m = b.slot m := by
      refine hr.slot_out m fun j hj hf he => ?_
      -- no level of the map is better than its first one
      cases hbest : b.bottomLevels.bestKey with
      | none => exact hf (Depth.bestKey_eq_none_iff.1 hbest j)
      | some i =>
          rw [hbest, Option.getD_some] at hinside
          have hnb : ¬ s.Better b.rewindowed.tkBeginTop i := by
            rw [← hbegin, ← hinside]
            exact hw.not_better
          have hle := (Side.dist_le_iff hj hnb).2 (Depth.not_better_bestKey hbest hf)
          rw [hbegin, hinside] at hm
          omega
    rw [hout]
    rcases Nat.lt_trichotomy m (s.dist b.tkBeginTop b.tkInside) with hlt | heq | hgt
    · -- only the worst level of a window can be that of the empty quote
      by_contra h0
      have hempty := hlow m hlt h0
      have hbegin_le := h.window.begin_le
      have hreach := h.window.reaches (Nat.le_of_lt hlt)
      have hm0 : m = 0 := by
        cases s with
        | buy =>
            simp only [Side.levelAt, Side.tkEmptyQuote] at hempty
            omega
        | sell =>
            simp only [Side.levelAt, Side.tkEmptyQuote, Side.Reaches] at hempty hreach
            omega
      omega
    · rw [heq, hz]
    · exact h.slot_zero m hgt

theorem ReduceStep.tidy (h : Tidy b) {o : Option Bool} (hstep : ReduceStep b k qty o c) :
    Tidy c := by
  have hw := (hstep.window_kept h.window).1
  cases hstep with
  | missingBottom hb hf => exact h
  | betterInside hb hi => exact h
  | missingTop hb hi h0 => exact h
  | bottom hb hf => exact ⟨hw, h.slot_zero⟩
  | window hb hi h0 => exact h.setTop hb (Side.better_asymm hi) _
  | inside hi h0 hr =>
      subst hi
      exact h.setTop h.window.not_better (s.not_better_self _) _
  | removed hi h0 hr c hnext =>
      subst hi
      have hset := h.setTop h.window.not_better (s.not_better_self _)
        (reduced (b.slotOf b.tkInside) qty)
      apply hnext.tidy hset
      have hlen : s.dist b.tkBeginTop b.tkInside < b.topLevels.length :=
        h.window.length_eq ▸ h.window.dist_lt
      show (b.setTop _ _).slot (s.dist b.tkBeginTop b.tkInside) = 0
      rw [slot_setTop _ _ _ _ hlen, if_pos rfl, hr]

end Kept

/-! ## Additions -/

section Additions

variable {b c : ArrayBasedBookSide s} {k : Nat} {qty : Int} {r : Bool}

/-- Adding to the element of a level changes its quantity only. -/
theorem Window.content_addTop (hw : Window b) (hk : ¬ s.Better b.tkBeginTop k)
    (hi : ¬ s.Better k b.tkInside) (qty : Int) (j : Nat) :
    (b.addTop k qty).content j = if j = k then int32 (b.content k + qty) else b.content j := by
  have hlen : s.dist b.tkBeginTop k < b.topLevels.length :=
    hw.length_eq ▸ hw.dist_lt_maxSize hk hi
  rw [addTop, content_setTop hk hlen, content_of_not_better hk]

/-- Adding to the inside of a redefined window. -/
theorem Window.content_addTop_recentered (hw : Window (c.recentered k)) (qty : Int) (j : Nat) :
    ((c.recentered k).addTop k qty).content j =
      if j = k then int32 ((c.recentered k).content k + qty) else (c.recentered k).content j :=
  hw.content_addTop hw.not_better (s.not_better_self k) qty j

/-- An addition adds to the level of the order, unless it clears the vector. -/
theorem AddStep.content_eq (h : Tidy b) (h0 : 0 < k) (hk : k < levelMax)
    (hkeep : ¬ b.ClearsVector k) (hstep : AddStep b k qty r c) (j : Nat) :
    c.content j = if j = k then int32 (b.content k + qty) else b.content j := by
  have hsafe : ¬ PastEnd s b.maxSize k := fun hp => absurd hp.2.1 (Nat.pos_iff_ne_zero.1 h0)
  cases hstep with
  | bottom hb =>
      rw [content_setBottom, Depth.qtyAt_addQty, content_of_better hb]
      by_cases hj : s.Better b.tkBeginTop j
      · rw [if_pos hj, content_of_better hj]
      · have hjk : j ≠ k := fun he => hj (he ▸ hb)
        rw [if_neg hj, if_neg hjk]
  | window hb hi => exact h.window.content_addTop hb (Side.better_asymm hi) qty j
  | inside hb hi he =>
      have hlt := h.window.dist_lt_of_better_end (Nat.le_of_lt hk) hb he
      have hlim := h.window.limits_of_better_end (Nat.le_of_lt hk) he
      have hw := h.window.setInside (Or.inl hk) hb hlt hlim
      exact hw.content_addTop hb (s.not_better_self k) qty j
  | move hb hi he d hmoved =>
      have hset := hmoved.tidy h hk hsafe hb hi he
      have hnb := h.window.not_better_recentered hk hb he
      have hcontent := hmoved.content_eq h hnb (h.moves h0 hk he hkeep)
      rw [hset.window.content_addTop_recentered, hcontent, hcontent]

/-- An order for which the window stays where it is, with something in the vector, is past the end
of the window. -/
theorem AddStep.moved_of_clears (h : Tidy b) (h0 : 0 < k) (hk : k < levelMax)
    (hclear : b.ClearsVector k) (hstep : AddStep b k qty r c) :
    b.tkBeginTop = (s.limitTopPrices k (b.maxSize / 2)).1 ∧
      ∃ d, Moved b (s.limitTopPrices k (b.maxSize / 2)).1 d ∧ Tidy (d.recentered k) ∧
        c = (d.recentered k).addTop k qty := by
  have hsafe : ¬ PastEnd s b.maxSize k := fun hp => absurd hp.2.1 (Nat.pos_iff_ne_zero.1 h0)
  have hne : k ≠ s.tkEmptyQuote := ne_tkEmptyQuote h0 hk
  have hbegin : b.tkBeginTop = (s.limitTopPrices k (b.maxSize / 2)).1 := by
    rcases hclear with ⟨hsize, hin, -⟩ | ⟨⟨hbegin, -, -⟩, hlim, -⟩
    · rw [h.window.begin_of_single hsize, hin, limitTopPrices_of_single h0 hk hsize]
    · rw [hbegin, hlim]
  -- the inside is the level itself, or that of the empty quote
  have hinside : ¬ s.Better b.tkInside k := by
    rcases hclear with ⟨-, hin, -⟩ | ⟨⟨-, -, hin⟩, -, -⟩
    · rw [hin]
      exact s.not_better_self k
    · rw [hin]
      exact Side.not_better_tkEmptyQuote (Nat.le_of_lt hk)
  cases hstep with
  | bottom hb => exact absurd (Side.better_of_not_better_of_better h.window.not_better hb) hinside
  | window hb hi => exact absurd hi hinside
  | inside hb hi he =>
      rcases hclear with ⟨hsize, -, -⟩ | ⟨⟨-, hend, -⟩, -, -⟩
      · -- a window of width zero ends where it begins
        have hlim := h.window.limits_of_better_end (Nat.le_of_lt hk) he
        have hwidth := hlim.width
        have hlt := (Side.dist_lt_iff hb hlim.order).2 he
        rw [hwidth, hsize] at hlt
        exact absurd hlt (Nat.not_lt_zero _)
      · rw [hend] at he
        exact absurd he (Side.not_better_tkEmptyQuote (Nat.le_of_lt hk))
  | move hb hi he d hmoved => exact ⟨hbegin, d, hmoved, hmoved.tidy h hk hsafe hb hi he, rfl⟩

/-- A cleared vector loses the quantity of a level. -/
theorem AddStep.content_cleared (h : Tidy b) (h0 : 0 < k) (hk : k < levelMax)
    (hclear : b.ClearsVector k) (hstep : AddStep b k qty r c) :
    ∃ j, b.content j ≠ 0 ∧ c.content j = if j = k then int32 qty else 0 := by
  obtain ⟨hbegin, d, hmoved, hset, rfl⟩ := hstep.moved_of_clears h h0 hk hclear
  -- the cleared level is at or past the worst one of the window
  obtain ⟨j, hj, hrec⟩ : ∃ j, ¬ s.Better b.tkBeginTop j ∧ b.slotOf j ≠ 0 := by
    rcases hclear with ⟨-, hin, hrec⟩ | ⟨⟨hempty, -, -⟩, -, hrec⟩
    · exact ⟨k, hin ▸ h.window.not_better, hrec⟩
    · exact ⟨s.tkEmptyQuote, hempty ▸ s.not_better_self _, hrec⟩
  have hsize : d.maxSize = b.maxSize := by rw [hmoved.state_eq]
  have hcleared : ∀ i, ¬ s.Better b.tkBeginTop i → (d.recentered k).content i = 0 := by
    intro i hi
    rw [content_recentered, hsize, ← hbegin, if_neg hi, hmoved.slot_cleared h hbegin]
  refine ⟨j, by rwa [content_of_not_better hj], ?_⟩
  have hk' : ¬ s.Better b.tkBeginTop k := by
    rw [hbegin]
    exact not_better_limitTopPrices b.maxSize (Or.inl hk)
  rw [hset.window.content_addTop_recentered, hcleared j hj, hcleared k hk', Int.zero_add]

theorem int32_eq_iff {x : Int} : int32 x = x ↔ FitsInt x := by
  refine ⟨fun h => ?_, int32_of_fits⟩
  unfold int32 at h
  unfold FitsInt
  omega

/-- An addition is recorded exactly when the sum is an `int` and the vector is not cleared. -/
theorem AddStep.records_iff (h : Tidy b) (h0 : 0 < k) (hk : k < levelMax) (hq : FitsInt qty)
    (hstep : AddStep b k qty r c) :
    Records b c k qty ↔ FitsInt (b.recorded k + qty) ∧ ¬ b.ClearsVector k := by
  have hsafe : ¬ PastEnd s b.maxSize k := fun hp => absurd hp.2.1 (Nat.pos_iff_ne_zero.1 h0)
  rw [ArrayBasedBookSide.records_iff h.window (hstep.window_kept h.window hk hsafe).1,
    h.window.recorded_eq]
  constructor
  · intro hrec
    have hkeep : ¬ b.ClearsVector k := by
      intro hclear
      obtain ⟨j, hne, hj⟩ := hstep.content_cleared h h0 hk hclear
      rw [hrec j, int32_of_fits hq] at hj
      by_cases hjk : j = k
      · rw [if_pos hjk, if_pos hjk] at hj
        rw [hjk] at hne
        omega
      · rw [if_neg hjk, if_neg hjk] at hj
        exact hne hj
    refine ⟨?_, hkeep⟩
    have hsum := hstep.content_eq h h0 hk hkeep k
    rw [hrec k, if_pos rfl, if_pos rfl] at hsum
    exact int32_eq_iff.1 hsum.symm
  · rintro ⟨hfit, hkeep⟩ j
    rw [hstep.content_eq h h0 hk hkeep, int32_of_fits hfit]

end Additions

/-! ## Reached sides -/

section Reached

variable {b : ArrayBasedBookSide s}

/-- Parameters that are not accepted are reported before anything is done. -/
theorem validateOperationParams_error {operation : String} {qty : Int} {px : Nat}
    (h : ¬ (0 < qty ∧ px < maxPriceFieldValue price4)) (b : ArrayBasedBookSide s) :
    (validateOperationParams operation qty px).run b =
      .error (.feedError (.invalidOperationParameters operation qty px)) b := by
  rw [validateOperationParams, if_neg]
  · rfl
  · rintro ⟨hq, -, hpx⟩
    exact h ⟨hq, hpx⟩

theorem addOrder_rejected {px : Nat} {qty : Int}
    (h : ¬ (0 < qty ∧ px < maxPriceFieldValue price4)) (b : ArrayBasedBookSide s) :
    (addOrder px qty).run b =
      .error (.feedError (.invalidOperationParameters "add_order" qty px)) b := by
  rw [addOrder, EStateM.run_bind, validateOperationParams_error h]

theorem reduceOrder_rejected {px : Nat} {qty : Int}
    (h : ¬ (0 < qty ∧ px < maxPriceFieldValue price4)) (b : ArrayBasedBookSide s) :
    (reduceOrder px qty).run b =
      .error (.feedError (.invalidOperationParameters "reduce_order" qty px)) b := by
  rw [reduceOrder, EStateM.run_bind, validateOperationParams_error h]

/-- A level is recorded in the map or in the vector. -/
def HasLevel (b : ArrayBasedBookSide s) (k : Nat) : Prop :=
  b.bottomLevels.find? k ≠ none ∨ b.topQty k ≠ 0

instance (b : ArrayBasedBookSide s) (k : Nat) : Decidable (b.HasLevel k) :=
  inferInstanceAs (Decidable (_ ∨ _))

theorem hasLevel_of_better {k : Nat} (hk : s.Better b.tkBeginTop k) :
    b.HasLevel k ↔ b.bottomLevels.find? k ≠ none := by
  rw [HasLevel, topQty, if_pos hk]
  simp

theorem Window.hasLevel_of_not_better (hw : Window b) {k : Nat} (hk : ¬ s.Better b.tkBeginTop k) :
    b.HasLevel k ↔ b.slotOf k ≠ 0 := by
  rw [HasLevel, topQty, if_neg hk, hw.find?_eq_none hk]
  simp

/-- A reduction is done exactly when the level is recorded. -/
theorem ReduceStep.hasLevel_iff (h : Tidy b) {c : ArrayBasedBookSide s} {k : Nat} {qty : Int}
    {o : Option Bool} (hstep : ReduceStep b k qty o c) : b.HasLevel k ↔ o.isSome = true := by
  cases hstep with
  | missingBottom hb hf => simp [hasLevel_of_better hb, hf]
  | betterInside hb hi =>
      -- the vector is zero past the inside
      have hslot : b.slotOf k = 0 :=
        h.slot_zero _ ((Side.dist_lt_iff h.window.not_better hb).2 hi)
      simp [h.window.hasLevel_of_not_better hb, hslot]
  | missingTop hb hi h0 => simp [h.window.hasLevel_of_not_better hb, h0]
  | bottom hb hf => simp [hasLevel_of_better hb, hf]
  | window hb hi h0 => simp [h.window.hasLevel_of_not_better hb, h0]
  | inside hi h0 hr =>
      have hb : ¬ s.Better b.tkBeginTop k := hi ▸ h.window.not_better
      simp [h.window.hasLevel_of_not_better hb, h0]
  | removed hi h0 hr c hnext =>
      have hb : ¬ s.Better b.tkBeginTop k := hi ▸ h.window.not_better
      simp [h.window.hasLevel_of_not_better hb, h0]

/-- The write past the end of the vector is a fault. -/
theorem addOrder_fault (hw : Window b) {px : Nat} {qty : Int} (hq : 0 < qty)
    (hsafe : PastEnd s b.maxSize (level px)) :
    ∃ e c, (addOrder px qty).run b = .error e c ∧ e.isFault = true := by
  obtain ⟨rfl, hlevel, hwidth⟩ := hsafe
  have hpx0 : px = 0 := by
    by_contra hne
    exact Nat.pos_iff_ne_zero.1 (level_pos (Nat.pos_of_ne_zero hne)) hlevel
  subst hpx0
  obtain ⟨c, hc⟩ := addOrder_pastEnd hw hq hwidth
  exact ⟨_, c, hc, rfl⟩

/-- `add_order` accepts or rejects by its parameters alone. -/
theorem addOrder_checked (h : Tidy b) (px : Nat) (qty : Int) :
    Checked Tidy (0 < qty ∧ px < maxPriceFieldValue price4) True ((addOrder px qty).run b) := by
  by_cases hop : 0 < qty ∧ px < maxPriceFieldValue price4
  · obtain ⟨hq, hpx⟩ := hop
    by_cases hsafe : PastEnd s b.maxSize (level px)
    · obtain ⟨e, c, hrun, hfault⟩ := addOrder_fault h.window hq hsafe
      rw [hrun]
      exact .fault ⟨hq, hpx⟩ trivial hfault
    · obtain ⟨r, c, hrun, hstep⟩ := addOrder_run h.window hq hpx hsafe
      rw [hrun]
      exact .done ⟨hq, hpx⟩ (hstep.tidy h (level_lt_levelMax hpx) hsafe)
  · rw [addOrder_rejected hop]
    exact .raised hop h

/-- `reduce_order` also asks for the level to be there, and is never a fault. -/
theorem reduceOrder_checked (h : Tidy b) (px : Nat) (qty : Int) :
    Checked Tidy ((0 < qty ∧ px < maxPriceFieldValue price4) ∧ b.HasLevel (level px)) False
      ((reduceOrder px qty).run b) := by
  by_cases hop : 0 < qty ∧ px < maxPriceFieldValue price4
  · rcases reduceOrder_run h.window hop.1 hop.2 with ⟨f, hrun, hstep⟩ | ⟨r, c, hrun, hstep⟩
    · rw [hrun]
      refine .raised ?_ h
      rintro ⟨-, hlevel⟩
      exact Bool.noConfusion ((hstep.hasLevel_iff h).1 hlevel)
    · rw [hrun]
      exact .done ⟨hop, (hstep.hasLevel_iff h).2 rfl⟩ (hstep.tidy h)
  · rw [reduceOrder_rejected hop]
    exact .raised (fun hacc => hop hacc.1) h

/-- An operation that is not a fault keeps the vector zero past the inside. -/
theorem step_tidy (h : Tidy b) (op : BookOp)
    (hout : ∀ e, ((sideMachine ArrayBasedBookSide s).step b op).1 = .error e → e.isFault = false) :
    Tidy ((sideMachine ArrayBasedBookSide s).step b op).2 := by
  have hstate : ((sideMachine ArrayBasedBookSide s).step b op).2 =
      Machine.finalState ((BookOp.action op).run b) := Machine.ofAction_step_state _ b op
  have herror : ∀ e t, (BookOp.action op).run b = .error e t → e.isFault = false := by
    intro e t hrun
    have heq : (sideMachine ArrayBasedBookSide s).step b op = (.error e, t) :=
      Machine.ofAction_step_error hrun
    exact hout e (by rw [heq])
  rw [hstate]
  cases op with
  | add px qty => exact (addOrder_checked h px qty).final herror
  | reduce px qty => exact (reduceOrder_checked h px qty).final herror

/-- The side after a run of operations. -/
def reached (cfg : ArrayBasedConfig) (s : Side) (ops : List BookOp) : ArrayBasedBookSide s :=
  ((sideMachine ArrayBasedBookSide s).run (make cfg s) ops).2

/-- No operation of the run was a fault. -/
def FaultFree (cfg : ArrayBasedConfig) (s : Side) (ops : List BookOp) : Prop :=
  ∀ o ∈ ((sideMachine ArrayBasedBookSide s).run (make cfg s) ops).1, ∀ e, o = .error e →
    e.isFault = false

theorem tidy_reached {cfg : ArrayBasedConfig} (hcfg : cfg.validate = true) {ops : List BookOp}
    (hops : FaultFree cfg s ops) : Tidy (reached cfg s ops) := by
  have hmake : Tidy (make cfg s) := Tidy.make cfg hcfg
  refine Machine.run_invariant_of_outputs ?_ hops hmake
  intro b op h hout
  exact step_tidy h op hout

/-- An accepted order above price zero is recorded at its level, with no other level changed and none
recorded twice, exactly when the sum is an `int` and the order does not clear the vector. -/
theorem addOrder_records_iff (cfg : ArrayBasedConfig) (hcfg : cfg.validate = true) (s : Side)
    (ops : List BookOp) (hops : FaultFree cfg s ops) {px : Nat} {qty : Int} (hq : 0 < qty)
    (hfit : FitsInt qty) (h0 : 0 < px) (hpx : px < maxPriceFieldValue price4) :
    (∃ r c, (addOrder px qty).run (reached cfg s ops) = .ok r c ∧
        Records (reached cfg s ops) c (level px) qty) ↔
      FitsInt ((reached cfg s ops).recorded (level px) + qty) ∧
        ¬ (reached cfg s ops).ClearsVector (level px) := by
  have h := tidy_reached hcfg hops
  generalize reached cfg s ops = b at h
  have hk0 : 0 < level px := level_pos h0
  have hk : level px < levelMax := level_lt_levelMax hpx
  have hsafe : ¬ PastEnd s b.maxSize (level px) := fun hp =>
    absurd hp.2.1 (Nat.pos_iff_ne_zero.1 hk0)
  obtain ⟨r, c, hrun, hstep⟩ := addOrder_run h.window hq hpx hsafe
  rw [← hstep.records_iff h hk0 hk hfit]
  constructor
  · rintro ⟨r', c', hrun', hrec⟩
    rw [hrun] at hrun'
    cases hrun'
    exact hrec
  · intro hrec
    exact ⟨r, c, hrun, hrec⟩

theorem addOrder_records_buy :
    (ArrayBasedConfig.mk 2).validate = true ∧
      ∃ r c, (addOrder 6 5).run (reached ⟨2⟩ .buy [.add 5 10]) = .ok r c ∧
        Records (reached ⟨2⟩ .buy [.add 5 10]) c (level 6) 5 := by
  have hrun : ((sideMachine ArrayBasedBookSide .buy).run (make ⟨2⟩ .buy) [.add 5 10]).1 =
      [.ok true] := by decide
  have hops : FaultFree ⟨2⟩ .buy [.add 5 10] := by
    rw [FaultFree, hrun]
    simp
  exact ⟨rfl, (addOrder_records_iff ⟨2⟩ rfl .buy [.add 5 10] hops (by decide) (by decide)
    (by decide) (by decide)).2 (by decide)⟩

/-- A second order at the inside of a vector of a single element replaces the first. -/
theorem addOrder_single :
    (ArrayBasedConfig.mk 1).validate = true ∧ FaultFree ⟨1⟩ .buy [.add 5 10] ∧
      0 < 5 ∧ 5 < maxPriceFieldValue price4 ∧
      ∃ c, (addOrder 5 3).run (reached ⟨1⟩ .buy [.add 5 10]) = .ok true c ∧
        (reached ⟨1⟩ .buy [.add 5 10]).recorded (level 5) = 10 ∧ c.recorded (level 5) = 3 ∧
        ¬ Records (reached ⟨1⟩ .buy [.add 5 10]) c (level 5) 3 := by
  have hrun : ((sideMachine ArrayBasedBookSide .buy).run (make ⟨1⟩ .buy) [.add 5 10]).1 =
      [.ok true] := by decide
  have hops : FaultFree ⟨1⟩ .buy [.add 5 10] := by
    rw [FaultFree, hrun]
    simp
  have hbefore : (reached ⟨1⟩ .buy [.add 5 10]).recorded (level 5) = 10 := by decide
  refine ⟨rfl, hops, by decide, by decide, _, rfl, hbefore, by decide, fun h => ?_⟩
  have hgrows := h.grows
  rw [hbefore] at hgrows
  exact absurd hgrows (by decide)

-- so does an order for which the empty window is redefined at zero, with a buy at price zero
example : (reached ⟨4⟩ .buy [.add 0 5]).recorded (level 0) = 5 ∧
    (reached ⟨4⟩ .buy [.add 0 5, .add 2 3]).recorded (level 0) = 0 := by decide

end Reached

end JayBeams.Itch5.ArrayBasedBookSide
