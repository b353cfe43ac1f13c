import JayBeams.Itch5.ArrayWindow

/-!
# Moves between the vector and the map

One lemma for each piece of the array-based side that reads or writes the vector. Each gives the
exact result of a run from a state where the indices stay inside the vector, with the vector
described by its elements (`slot`) and the map by its lookups.
-/

set_option autoImplicit false

namespace JayBeams.Itch5.ArrayBasedBookSide

open Containers

variable {s : Side}

/-- The element of the vector at an index, zero past its end. -/
def slot (b : ArrayBasedBookSide s) (i : Nat) : Int := b.topLevels.getD i 0

/-- Assignment to an element of the vector. -/
def setTop (b : ArrayBasedBookSide s) (i : Nat) (qty : Int) : ArrayBasedBookSide s :=
  { b with topLevels := b.topLevels.set i qty }

/-- The map replaced. -/
def setBottom (b : ArrayBasedBookSide s) (d : Depth s) : ArrayBasedBookSide s :=
  { b with bottomLevels := d }

/-- The inside and the limits of the window replaced. -/
def setWindow (b : ArrayBasedBookSide s) (tkInside tkBegin tkEnd : Nat) : ArrayBasedBookSide s :=
  { b with tkInside := tkInside, tkBeginTop := tkBegin, tkEndTop := tkEnd }

section Setters

variable (b : ArrayBasedBookSide s) (i m : Nat) (qty : Int) (d : Depth s) (k l e : Nat)

@[simp] theorem setTop_maxSize : (b.setTop i qty).maxSize = b.maxSize := rfl
@[simp] theorem setTop_bottomLevels : (b.setTop i qty).bottomLevels = b.bottomLevels := rfl
@[simp] theorem setTop_tkInside : (b.setTop i qty).tkInside = b.tkInside := rfl
@[simp] theorem setTop_tkBeginTop : (b.setTop i qty).tkBeginTop = b.tkBeginTop := rfl
@[simp] theorem setTop_tkEndTop : (b.setTop i qty).tkEndTop = b.tkEndTop := rfl

@[simp] theorem length_setTop : (b.setTop i qty).topLevels.length = b.topLevels.length :=
  List.length_set

@[simp] theorem setBottom_maxSize : (b.setBottom d).maxSize = b.maxSize := rfl
@[simp] theorem setBottom_topLevels : (b.setBottom d).topLevels = b.topLevels := rfl
@[simp] theorem setBottom_bottomLevels : (b.setBottom d).bottomLevels = d := rfl
@[simp] theorem setBottom_tkInside : (b.setBottom d).tkInside = b.tkInside := rfl
@[simp] theorem setBottom_tkBeginTop : (b.setBottom d).tkBeginTop = b.tkBeginTop := rfl
@[simp] theorem setBottom_tkEndTop : (b.setBottom d).tkEndTop = b.tkEndTop := rfl
@[simp] theorem slot_setBottom : (b.setBottom d).slot m = b.slot m := rfl

@[simp] theorem setWindow_maxSize : (b.setWindow k l e).maxSize = b.maxSize := rfl
@[simp] theorem setWindow_topLevels : (b.setWindow k l e).topLevels = b.topLevels := rfl
@[simp] theorem setWindow_bottomLevels : (b.setWindow k l e).bottomLevels = b.bottomLevels := rfl
@[simp] theorem setWindow_tkInside : (b.setWindow k l e).tkInside = k := rfl
@[simp] theorem setWindow_tkBeginTop : (b.setWindow k l e).tkBeginTop = l := rfl
@[simp] theorem setWindow_tkEndTop : (b.setWindow k l e).tkEndTop = e := rfl
@[simp] theorem slot_setWindow : (b.setWindow k l e).slot m = b.slot m := rfl

theorem slot_setTop (h : i < b.topLevels.length) :
    (b.setTop i qty).slot m = if m = i then qty else b.slot m := by
  simp only [slot, setTop, List.getD_eq_getElem?_getD, List.getElem?_set]
  by_cases him : i = m
  · subst him
    simp [h]
  · simp [him, Ne.symm him]

end Setters

/-! ## Reading and writing the vector -/

section Vector

variable {b : ArrayBasedBookSide s} {i n : Nat}

theorem top_eq (h : i < b.topLevels.length) : b.top i = .ok (b.slot i) := by
  simp [top, slot, h]

theorem readTop_run (h : i < b.topLevels.length) : (readTop i).run b = .ok (b.slot i) b := by
  simp only [readTop, EStateM.run_bind, EStateM.run_get, top_eq h, liftExcept, EStateM.run_pure]

theorem writeTop_run (h : i < b.topLevels.length) (qty : Int) :
    (writeTop i qty).run b = .ok () (b.setTop i qty) := by
  simp only [writeTop, EStateM.run_bind, EStateM.run_get, if_pos h, EStateM.run_set]
  rfl

theorem fillTop_run (h : n ≤ b.topLevels.length) :
    ∃ c : ArrayBasedBookSide s, (fillTop n).run b = .ok () c ∧
      c = { b with topLevels := c.topLevels } ∧ c.topLevels.length = b.topLevels.length ∧
      ∀ m, c.slot m = if m < n then 0 else b.slot m := by
  refine ⟨{ b with topLevels := List.replicate n 0 ++ b.topLevels.drop n }, ?_, rfl, ?_, ?_⟩
  · simp only [fillTop, EStateM.run_bind, EStateM.run_get, if_pos h, EStateM.run_set]
  · simp
    omega
  · intro m
    simp only [slot, List.getD_eq_getElem?_getD]
    by_cases hm : m < n
    · simp [List.getElem?_append, hm]
    · have hn : n + (m - n) = m := by omega
      simp [List.getElem?_append, List.getElem?_drop, hm, hn]

end Vector

/-! ## Spilling levels into the map -/

/-- The element of the vector for a level. -/
def slotOf (b : ArrayBasedBookSide s) (k : Nat) : Int := b.slot (s.dist b.tkBeginTop k)

/-- The level is a nonzero one of the `n` elements of the vector from `i` on. -/
def Spills (b : ArrayBasedBookSide s) (i n k : Nat) : Prop :=
  ¬ s.Better b.tkBeginTop k ∧ i ≤ s.dist b.tkBeginTop k ∧ s.dist b.tkBeginTop k < i + n ∧
    b.slotOf k ≠ 0

section Spills

variable {b : ArrayBasedBookSide s} {i n k : Nat}

@[simp] theorem slotOf_setBottom (d : Depth s) : (b.setBottom d).slotOf k = b.slotOf k := rfl

@[simp] theorem spills_setBottom (d : Depth s) :
    (b.setBottom d).Spills i n k ↔ b.Spills i n k := Iff.rfl

theorem not_spills_zero : ¬ b.Spills i 0 k := by
  intro h
  exact absurd h.2.2.1 (Nat.not_lt.2 h.2.1)

/-- The first element stands for a level that spills, or it is zero. -/
theorem spills_succ : b.Spills i (n + 1) k ↔
    (¬ s.Better b.tkBeginTop k ∧ s.dist b.tkBeginTop k = i ∧ b.slotOf k ≠ 0) ∨
      b.Spills (i + 1) n k := by
  constructor
  · rintro ⟨hk, hle, hlt, h0⟩
    rcases Nat.eq_or_lt_of_le hle with he | hgt
    · exact Or.inl ⟨hk, he.symm, h0⟩
    · exact Or.inr ⟨hk, hgt, by omega, h0⟩
  · rintro (⟨hk, he, h0⟩ | ⟨hk, hle, hlt, h0⟩)
    · exact ⟨hk, he.ge, by omega, h0⟩
    · exact ⟨hk, Nat.le_of_succ_le hle, by omega, h0⟩

theorem spills_succ_of_zero (h0 : b.slot i = 0) :
    b.Spills i (n + 1) k ↔ b.Spills (i + 1) n k := by
  rw [spills_succ, or_iff_right]
  rintro ⟨-, he, hne⟩
  exact hne (by rw [slotOf, he, h0])

theorem spills_succ_of_ne (hi : s.Reaches b.tkBeginTop i) (h0 : b.slot i ≠ 0) :
    b.Spills i (n + 1) k ↔ k = s.levelAt b.tkBeginTop i ∨ b.Spills (i + 1) n k := by
  rw [spills_succ]
  apply or_congr_left
  constructor
  · rintro ⟨hk, he, -⟩
    rw [← he, Side.levelAt_dist hk]
  · rintro rfl
    have hdist := Side.dist_levelAt hi
    exact ⟨s.not_better_levelAt _ _, hdist, by rwa [slotOf, hdist]⟩

/-- The levels worse than `tkMax` are those of the elements before it. -/
theorem spills_dist_iff {tkMax : Nat} (hmax : ¬ s.Better b.tkBeginTop tkMax) :
    b.Spills 0 (s.dist b.tkBeginTop tkMax) k ↔
      ¬ s.Better b.tkBeginTop k ∧ s.Better tkMax k ∧ b.slotOf k ≠ 0 := by
  rw [Spills, Nat.zero_add]
  constructor
  · rintro ⟨hk, -, hlt, h0⟩
    exact ⟨hk, (Side.dist_lt_iff hk hmax).1 hlt, h0⟩
  · rintro ⟨hk, hbetter, h0⟩
    exact ⟨hk, Nat.zero_le _, (Side.dist_lt_iff hk hmax).2 hbetter, h0⟩

/-- The levels up to `tkMax` are those of the elements up to its own. -/
theorem spills_dist_succ_iff {tkMax : Nat} (hmax : ¬ s.Better b.tkBeginTop tkMax) :
    b.Spills 0 (s.dist b.tkBeginTop tkMax + 1) k ↔
      ¬ s.Better b.tkBeginTop k ∧ ¬ s.Better k tkMax ∧ b.slotOf k ≠ 0 := by
  rw [Spills, Nat.zero_add]
  constructor
  · rintro ⟨hk, -, hlt, h0⟩
    exact ⟨hk, (Side.dist_le_iff hk hmax).1 (Nat.le_of_lt_succ hlt), h0⟩
  · rintro ⟨hk, hbetter, h0⟩
    exact ⟨hk, Nat.zero_le _, Nat.lt_succ_of_le ((Side.dist_le_iff hk hmax).2 hbetter), h0⟩

end Spills

/-- The loop inserts the nonzero levels it reads. None of them is in the map before. -/
theorem moveRangedLoop_run {n i : Nat} {b : ArrayBasedBookSide s}
    (hlen : i + n ≤ b.topLevels.length)
    (hreach : ∀ m, i ≤ m → m < i + n → s.Reaches b.tkBeginTop m)
    (hnew : ∀ k, ¬ s.Better b.tkBeginTop k → i ≤ s.dist b.tkBeginTop k →
      b.bottomLevels.find? k = none) :
    ∃ d : Depth s, (moveRangedLoop n i).run b = .ok () (b.setBottom d) ∧
      (∀ k, b.Spills i n k → d.find? k = some (b.slotOf k)) ∧
      ∀ k, ¬ b.Spills i n k → d.find? k = b.bottomLevels.find? k := by
  induction n generalizing i b with
  | zero => exact ⟨b.bottomLevels, rfl, fun k h => absurd h not_spills_zero, fun _ _ => rfl⟩
  | succ n ih =>
      have hi : s.Reaches b.tkBeginTop i := hreach i (Nat.le_refl i) (by omega)
      have hread : (readTop i).run b = .ok (b.slot i) b := readTop_run (by omega)
      have hreach' : ∀ m, i + 1 ≤ m → m < i + 1 + n → s.Reaches b.tkBeginTop m :=
        fun m h₁ h₂ => hreach m (by omega) (by omega)
      by_cases h0 : b.slot i = 0
      · -- a zero is no level
        have hrun : (moveRangedLoop (n + 1) i).run b = (moveRangedLoop n (i + 1)).run b := by
          rw [moveRangedLoop, EStateM.run_bind, hread]
          simp only [h0, if_true]
        obtain ⟨d, hd, hin, hout⟩ := ih (by omega) hreach'
          (fun k hk hle => hnew k hk (Nat.le_of_succ_le hle))
        refine ⟨d, hrun ▸ hd, ?_, ?_⟩
        · intro k hk
          exact hin k ((spills_succ_of_zero h0).1 hk)
        · intro k hk
          exact hout k fun h => hk ((spills_succ_of_zero h0).2 h)
      · -- the level `k₀` of the element becomes an entry of the map
        generalize hk₀ : s.levelAt b.tkBeginTop i = k₀
        have hnb : ¬ s.Better b.tkBeginTop k₀ := hk₀ ▸ s.not_better_levelAt _ _
        have hdist : s.dist b.tkBeginTop k₀ = i := hk₀ ▸ Side.dist_levelAt hi
        have hspills : ∀ k, b.Spills i (n + 1) k ↔ k = k₀ ∨ b.Spills (i + 1) n k :=
          fun k => hk₀ ▸ spills_succ_of_ne hi h0
        have hnone : b.bottomLevels.find? k₀ = none := hnew k₀ hnb hdist.ge
        have hfind : ∀ k, (b.bottomLevels.emplace k₀ (b.slot i)).find? k =
            if k = k₀ then some (b.slot i) else b.bottomLevels.find? k := by
          intro k
          rw [OrderedMap.find?_emplace, hnone]
          rfl
        have hrun : (moveRangedLoop (n + 1) i).run b = (moveRangedLoop n (i + 1)).run
            (b.setBottom (b.bottomLevels.emplace k₀ (b.slot i))) := by
          rw [moveRangedLoop, EStateM.run_bind, hread]
          simp only [h0, if_false, EStateM.run_bind, EStateM.run_get, EStateM.run_modify,
            Side.relativeToLevel_eq hi, liftExcept, EStateM.run_pure, hk₀]
          rfl
        have hnew' : ∀ k, ¬ s.Better b.tkBeginTop k → i + 1 ≤ s.dist b.tkBeginTop k →
            (b.bottomLevels.emplace k₀ (b.slot i)).find? k = none := by
          intro k hk hle
          have hne : k ≠ k₀ := by
            rintro rfl
            exact absurd hdist (Nat.ne_of_gt hle)
          rw [hfind, if_neg hne, hnew k hk (Nat.le_of_succ_le hle)]
        obtain ⟨d, hd, hin, hout⟩ := ih
          (b := b.setBottom (b.bottomLevels.emplace k₀ (b.slot i)))
          (by rw [setBottom_topLevels]; omega) hreach' hnew'
        refine ⟨d, hrun ▸ hd, ?_, ?_⟩
        · intro k hk
          by_cases hlater : b.Spills (i + 1) n k
          · exact hin k hlater
          · obtain rfl := ((hspills k).1 hk).resolve_right hlater
            rw [hout k hlater, setBottom_bottomLevels, hfind, if_pos rfl, slotOf, hdist]
        · intro k hk
          rw [hspills, not_or] at hk
          rw [hout k hk.2, setBottom_bottomLevels, hfind, if_neg hk.1]

/-- What spilling the first `n` elements of the vector leaves: they are zero, and the levels they
stood for are in the map. -/
structure Spilled (b : ArrayBasedBookSide s) (n : Nat) (c : ArrayBasedBookSide s) : Prop where
  state_eq : c = { b with topLevels := c.topLevels, bottomLevels := c.bottomLevels }
  length_eq : c.topLevels.length = b.topLevels.length
  slot_eq : ∀ m, c.slot m = if m < n then 0 else b.slot m
  find?_in : ∀ k, b.Spills 0 n k → c.bottomLevels.find? k = some (b.slotOf k)
  find?_out : ∀ k, ¬ b.Spills 0 n k → c.bottomLevels.find? k = b.bottomLevels.find? k

theorem moveTopToBottomRanged_run {n : Nat} {b : ArrayBasedBookSide s}
    (hlen : n ≤ b.topLevels.length) (hreach : ∀ m, m < n → s.Reaches b.tkBeginTop m)
    (hnew : ∀ k, ¬ s.Better b.tkBeginTop k → b.bottomLevels.find? k = none) :
    ∃ c, (moveTopToBottomRanged n).run b = .ok () c ∧ Spilled b n c := by
  obtain ⟨d, hd, hin, hout⟩ := moveRangedLoop_run (n := n) (i := 0) (b := b) (by omega)
    (fun m _ h => hreach m (by omega)) (fun k hk _ => hnew k hk)
  obtain ⟨c, hc, hstate, hlength, hslot⟩ := fillTop_run (b := b.setBottom d) (n := n) hlen
  have hbottom : c.bottomLevels = d := by rw [hstate]; rfl
  refine ⟨c, ?_, ?_, hlength, hslot, fun k hk => ?_, fun k hk => ?_⟩
  · rw [moveTopToBottomRanged, EStateM.run_bind, hd]
    exact hc
  · rw [hbottom, hstate]
    rfl
  · rw [hbottom, hin k hk]
  · rw [hbottom, hout k hk]

/-! ## Shifting levels down the vector -/

/-- The element `m` of the vector after `n` elements from `i` on were moved to `j`. -/
def shiftedSlot (b : ArrayBasedBookSide s) (n i j m : Nat) : Int :=
  if j < i ∧ j ≤ m ∧ m < j + n then b.slot (m + (i - j))
  else if i ≤ m ∧ m < i + n then 0 else b.slot m

section Shift

variable {b : ArrayBasedBookSide s} {n i j : Nat}

theorem shiftedSlot_zero (m : Nat) : b.shiftedSlot 0 i j m = b.slot m := by
  rw [shiftedSlot, if_neg (by omega), if_neg (by omega)]

/-- A zero element need not move: what stands before it is zero as well. -/
theorem shiftedSlot_succ_of_zero (h0 : b.slot i = 0)
    (hzero : ∀ m, j ≤ m → m < i → b.slot m = 0) (m : Nat) :
    b.shiftedSlot n (i + 1) (j + 1) m = b.shiftedSlot (n + 1) i j m := by
  have hmi : m = i → b.slot m = 0 := fun he => he ▸ h0
  have hmj : j < i → m = j → b.slot m = 0 ∧ b.slot (m + (i - j)) = 0 := by
    rintro hlt rfl
    exact ⟨hzero m (Nat.le_refl m) hlt, by rw [Nat.add_sub_cancel' hlt.le, h0]⟩
  rw [shiftedSlot, shiftedSlot, Nat.add_sub_add_right]
  split_ifs <;> omega

/-- The first element moved to its place, the others follow. -/
theorem shiftedSlot_succ {c : ArrayBasedBookSide s} (hij : j ≤ i)
    (hset : ∀ m, c.slot m = if m = i then 0 else if m = j then b.slot i else b.slot m) (m : Nat) :
    c.shiftedSlot n (i + 1) (j + 1) m = b.shiftedSlot (n + 1) i j m := by
  have hji : m = j → b.slot (m + (i - j)) = b.slot i := by
    rintro rfl
    rw [Nat.add_sub_cancel' hij]
  rw [shiftedSlot, shiftedSlot, Nat.add_sub_add_right, hset, hset]
  split_ifs <;> omega

end Shift

/-- The loop moves each element down by `i - j`. The elements between the two positions are zero
all along. -/
theorem shiftLoop_run {n i j : Nat} {b : ArrayBasedBookSide s} (hij : j ≤ i)
    (hlen : i + n ≤ b.topLevels.length) (hzero : ∀ m, j ≤ m → m < i → b.slot m = 0) :
    ∃ c, (shiftLoop n i j).run b = .ok () c ∧
      c = { b with topLevels := c.topLevels } ∧ c.topLevels.length = b.topLevels.length ∧
      ∀ m, c.slot m = b.shiftedSlot n i j m := by
  induction n generalizing i j b with
  | zero => exact ⟨b, rfl, rfl, rfl, fun m => (shiftedSlot_zero m).symm⟩
  | succ n ih =>
      have hi : i < b.topLevels.length := by omega
      have hj : j < b.topLevels.length := Nat.lt_of_le_of_lt hij hi
      by_cases h0 : b.slot i = 0
      · have hzero' : ∀ m, j + 1 ≤ m → m < i + 1 → b.slot m = 0 := by
          intro m h₁ h₂
          rcases Nat.lt_succ_iff_lt_or_eq.1 h₂ with h | rfl
          · exact hzero m (Nat.le_of_succ_le h₁) h
          · exact h0
        obtain ⟨c, hc, hstate, hlength, hslot⟩ := ih (Nat.succ_le_succ hij) (by omega) hzero'
        refine ⟨c, ?_, hstate, hlength, ?_⟩
        · rw [shiftLoop, EStateM.run_bind, readTop_run hi]
          simpa [h0] using hc
        · intro m
          rw [hslot m, shiftedSlot_succ_of_zero h0 hzero]
      · have hj' : i < (b.setTop j (b.slot i)).topLevels.length := by rwa [length_setTop]
        have hset : ∀ m, ((b.setTop j (b.slot i)).setTop i 0).slot m =
            if m = i then 0 else if m = j then b.slot i else b.slot m := by
          intro m
          rw [slot_setTop _ _ _ _ hj', slot_setTop _ _ _ _ hj]
        -- the element written at `j` is behind the next position, the one at `i` is zero now
        have hzero' : ∀ m, j + 1 ≤ m → m < i + 1 →
            ((b.setTop j (b.slot i)).setTop i 0).slot m = 0 := by
          intro m h₁ h₂
          rw [hset m]
          split_ifs with h h'
          · rfl
          · omega
          · exact hzero m (by omega) (by omega)
        obtain ⟨c, hc, hstate, hlength, hslot⟩ := ih
          (b := (b.setTop j (b.slot i)).setTop i 0) (Nat.succ_le_succ hij)
          (by rw [length_setTop, length_setTop]; omega) hzero'
        refine ⟨c, ?_, ?_, by simpa using hlength, ?_⟩
        · rw [shiftLoop, EStateM.run_bind, readTop_run hi]
          simp only [h0, ne_eq, not_false_eq_true, if_true, EStateM.run_bind]
          rw [writeTop_run hj]
          simp only []
          rw [writeTop_run hj']
          exact hc
        · rw [hstate]
          rfl
        · intro m
          rw [hslot m, shiftedSlot_succ hij hset]

/-- What `move_top_to_bottom` leaves: the levels worse than `tkMax` are in the map, and those from
`tkMax` to the inside start the vector. When `tkMax` is the worst level already, the shift in place
clears the vector up to the inside. -/
structure Moved (b : ArrayBasedBookSide s) (tkMax : Nat) (c : ArrayBasedBookSide s) : Prop where
  state_eq : c = { b with topLevels := c.topLevels, bottomLevels := c.bottomLevels }
  length_eq : c.topLevels.length = b.topLevels.length
  find?_in : ∀ k, ¬ s.Better b.tkBeginTop k → s.Better tkMax k → ¬ s.Better k b.tkInside →
    b.slotOf k ≠ 0 → c.bottomLevels.find? k = some (b.slotOf k)
  find?_out : ∀ k, ¬ (¬ s.Better b.tkBeginTop k ∧ s.Better tkMax k ∧ ¬ s.Better k b.tkInside ∧
    b.slotOf k ≠ 0) → c.bottomLevels.find? k = b.bottomLevels.find? k
  slot_shift : ¬ s.Better tkMax b.tkInside → b.tkBeginTop ≠ tkMax →
    ∀ m, m + s.dist b.tkBeginTop tkMax ≤ s.dist b.tkBeginTop b.tkInside →
      c.slot m = b.slot (m + s.dist b.tkBeginTop tkMax)
  slot_zero : ∀ m, m ≤ s.dist b.tkBeginTop b.tkInside →
    (s.Better tkMax b.tkInside ∨ b.tkBeginTop = tkMax ∨
      s.dist b.tkBeginTop b.tkInside < m + s.dist b.tkBeginTop tkMax) → c.slot m = 0
  slot_rest : ∀ m, s.dist b.tkBeginTop b.tkInside < m → c.slot m = b.slot m

/-- Every level up to the inside leaves the vector when `tkMax` is better than the inside. -/
theorem moveTopToBottom_all {tkMax : Nat} {b : ArrayBasedBookSide s} (hw : Window b)
    (hmax : ¬ s.Better b.tkBeginTop tkMax) (hall : s.Better tkMax b.tkInside) :
    ∃ c, (moveTopToBottom tkMax).run b = .ok () c ∧ Moved b tkMax c := by
  have hlen := hw.length_eq
  have hlt := hw.dist_lt
  obtain ⟨c, hc, hs⟩ := moveTopToBottomRanged_run (b := b)
    (n := s.dist b.tkBeginTop b.tkInside + 1) (by omega)
    (fun m hm => hw.reaches (Nat.le_of_lt_succ hm)) (fun k hk => hw.find?_eq_none hk)
  refine ⟨c, ?_, hs.state_eq, hs.length_eq, ?_, ?_, ?_, ?_, ?_⟩
  · simp only [moveTopToBottom, EStateM.run_bind, EStateM.run_get, assertThrow, hmax,
      not_false_eq_true, decide_true, if_true, EStateM.run_pure, hall,
      Side.levelToRelative_eq hw.not_better, liftExcept, hc]
  · intro k h₁ h₂ h₃ h₄
    exact hs.find?_in k ((spills_dist_succ_iff hw.not_better).2 ⟨h₁, h₃, h₄⟩)
  · intro k h
    apply hs.find?_out k
    rw [spills_dist_succ_iff hw.not_better]
    rintro ⟨h₁, h₃, h₄⟩
    exact h ⟨h₁, Side.better_of_better_of_not_better hall h₃, h₃, h₄⟩
  · exact fun h => absurd hall h
  · intro m hm _
    rw [hs.slot_eq, if_pos (Nat.lt_succ_of_le hm)]
  · intro m hm
    rw [hs.slot_eq, if_neg (Nat.not_lt.2 hm)]

/-- Otherwise the levels from `tkMax` to the inside stay, at the start of the vector. -/
theorem moveTopToBottom_part {tkMax : Nat} {b : ArrayBasedBookSide s} (hw : Window b)
    (hmax : ¬ s.Better b.tkBeginTop tkMax) (hall : ¬ s.Better tkMax b.tkInside) :
    ∃ c, (moveTopToBottom tkMax).run b = .ok () c ∧ Moved b tkMax c := by
  have hlen := hw.length_eq
  have hspills : ∀ k, b.Spills 0 (s.dist b.tkBeginTop tkMax) k ↔
      ¬ s.Better b.tkBeginTop k ∧ s.Better tkMax k ∧ ¬ s.Better k b.tkInside ∧
        b.slotOf k ≠ 0 := by
    intro k
    rw [spills_dist_iff hmax]
    constructor
    · rintro ⟨h₁, h₂, h₄⟩
      exact ⟨h₁, h₂, fun h => hall (Side.better_trans h₂ h), h₄⟩
    · rintro ⟨h₁, h₂, -, h₄⟩
      exact ⟨h₁, h₂, h₄⟩
  -- `r` elements spill, and the inside is the element `ri`
  generalize hr : s.dist b.tkBeginTop tkMax = r at hspills
  have hlt := hw.dist_lt
  generalize hri : s.dist b.tkBeginTop b.tkInside = ri at hlt
  have hle : r ≤ ri := hr ▸ hri ▸ (Side.dist_le_iff hmax hw.not_better).2 hall
  obtain ⟨c, hc, hs⟩ := moveTopToBottomRanged_run (b := b) (n := r) (by omega)
    (fun m hm => hw.reaches (by omega)) (fun k hk => hw.find?_eq_none hk)
  obtain ⟨e, he, hstate, hlength, hslot⟩ := shiftLoop_run (b := c) (n := ri + 1 - r) (i := r)
    (j := 0) (Nat.zero_le r) (by rw [hs.length_eq]; omega)
    (fun m _ hm => by rw [hs.slot_eq, if_pos hm])
  have hbottom : e.bottomLevels = c.bottomLevels := by rw [hstate]
  refine ⟨e, ?_, ?_, hlength.trans hs.length_eq, ?_, ?_, ?_, ?_, ?_⟩
  · simp only [moveTopToBottom, EStateM.run_bind, EStateM.run_get, assertThrow, hmax,
      not_false_eq_true, decide_true, if_true, EStateM.run_pure, hall, if_false,
      Side.levelToRelative_eq hmax, Side.levelToRelative_eq hw.not_better, liftExcept, hr, hri,
      hc]
    exact he
  · rw [hstate, hs.state_eq]
  · intro k h₁ h₂ h₃ h₄
    rw [hbottom, hs.find?_in k ((hspills k).2 ⟨h₁, h₂, h₃, h₄⟩)]
  · intro k h
    rw [hbottom, hs.find?_out k fun h' => h ((hspills k).1 h')]
  · intro _ hne m hm
    rw [hr, hri] at hm
    -- with `r = 0` the level `tkMax` would be the worst one of the window
    have hpos : 0 < r := by
      apply Nat.pos_of_ne_zero
      intro h0
      exact hne (by rw [← Side.levelAt_dist hmax, hr, h0, Side.levelAt_zero])
    rw [hslot, shiftedSlot, if_pos (by omega), hs.slot_eq, if_neg (by omega), Nat.sub_zero, hr]
  · intro m hm hor
    rw [hr, hri] at hor
    have hcase : r = 0 ∨ ri < m + r := by
      rcases hor with h | h | h
      · exact absurd h hall
      · left
        rw [← hr, h, Side.dist_self]
      · exact Or.inr h
    rw [hslot, shiftedSlot, if_neg (by omega)]
    split_ifs with h
    · rfl
    · rw [hs.slot_eq, if_pos (by omega)]
  · intro m hm
    rw [hslot, shiftedSlot, if_neg (by omega), if_neg (by omega), hs.slot_eq, if_neg (by omega)]

theorem moveTopToBottom_run {tkMax : Nat} {b : ArrayBasedBookSide s} (hw : Window b)
    (hmax : ¬ s.Better b.tkBeginTop tkMax) :
    ∃ c, (moveTopToBottom tkMax).run b = .ok () c ∧ Moved b tkMax c := by
  by_cases hall : s.Better tkMax b.tkInside
  · exact moveTopToBottom_all hw hmax hall
  · exact moveTopToBottom_part hw hmax hall

/-! ## Refilling the vector from the map -/

/-- The level of an entry of the map belongs in the window. -/
def fits (b : ArrayBasedBookSide s) (k : Nat) : Bool := ¬ s.Better b.tkBeginTop k

theorem fits_iff {b : ArrayBasedBookSide s} {k : Nat} :
    b.fits k = true ↔ ¬ s.Better b.tkBeginTop k :=
  decide_eq_true_iff

/-- The loop writes the entries before the first one that is worse than the window. -/
theorem moveBottomLoop_run {es : List (Nat × Int)} {n : Nat} {b : ArrayBasedBookSide s}
    (hsort : es.Pairwise fun a c => s.Better a.1 c.1)
    (hlen : ∀ e ∈ es, b.fits e.1 → s.dist b.tkBeginTop e.1 < b.topLevels.length) :
    ∃ c, (moveBottomLoop es n).run b = .ok (n + (es.takeWhile fun e => b.fits e.1).length) c ∧
      c = { b with topLevels := c.topLevels } ∧ c.topLevels.length = b.topLevels.length ∧
      (∀ e ∈ es, b.fits e.1 → c.slot (s.dist b.tkBeginTop e.1) = e.2) ∧
      ∀ m, (∀ e ∈ es, b.fits e.1 → s.dist b.tkBeginTop e.1 ≠ m) → c.slot m = b.slot m := by
  induction es generalizing n b with
  | nil => exact ⟨b, rfl, rfl, rfl, fun e he => by simp at he, fun _ _ => rfl⟩
  | cons le rest ih =>
      rw [List.pairwise_cons] at hsort
      by_cases hfit : s.Better b.tkBeginTop le.1
      · -- the entries after this one are worse still
        have hnone : ∀ e ∈ le :: rest, b.fits e.1 = false := by
          intro e he
          rcases List.mem_cons.1 he with rfl | he
          · simp [fits, hfit]
          · simp [fits, Side.better_trans hfit (hsort.1 e he)]
        refine ⟨b, ?_, rfl, rfl, fun e he h => ?_, fun _ _ => rfl⟩
        · have hhead : b.fits le.1 = false := hnone le (by simp)
          simp [moveBottomLoop, hfit, hhead]
        · rw [hnone e he] at h
          exact absurd h (by simp)
      · have hhead : b.fits le.1 = true := fits_iff.2 hfit
        have hi := hlen le (by simp) hhead
        obtain ⟨c, hc, hstate, hlength, hin, hout⟩ := ih (n := n + 1)
          (b := b.setTop (s.dist b.tkBeginTop le.1) le.2) hsort.2
          (fun e he h => by simpa using hlen e (by simp [he]) h)
        refine ⟨c, ?_, ?_, by simpa using hlength, fun e he h => ?_, fun m hm => ?_⟩
        · simp only [moveBottomLoop, EStateM.run_bind, EStateM.run_get, hfit, not_false_eq_true,
            if_true, Side.levelToRelative_eq hfit, liftExcept, EStateM.run_pure, writeTop_run hi]
          rw [hc, List.takeWhile_cons, if_pos hhead, List.length_cons, Nat.add_assoc,
            Nat.add_comm 1]
          rfl
        · rw [hstate]
          rfl
        · rcases List.mem_cons.1 he with rfl | he
          · rw [hout, slot_setTop _ _ _ _ hi, if_pos rfl]
            intro e' he' h' heq
            have heq' := (Side.dist_eq_iff (fits_iff.1 h') hfit).1 heq
            exact s.not_better_self e.1 (heq' ▸ hsort.1 e' he')
          · exact hin e he h
        · rw [hout m fun e he h => hm e (by simp [he]) h, slot_setTop _ _ _ _ hi,
            if_neg fun he => hm le (by simp) hhead he.symm]

/-- What refilling the vector leaves: the entries of the map that belong in the window are in the
vector. -/
structure Refilled (b c : ArrayBasedBookSide s) : Prop where
  state_eq : c = { b with topLevels := c.topLevels, bottomLevels := c.bottomLevels }
  length_eq : c.topLevels.length = b.topLevels.length
  find?_in : ∀ k, ¬ s.Better b.tkBeginTop k → c.bottomLevels.find? k = none
  find?_out : ∀ k, s.Better b.tkBeginTop k → c.bottomLevels.find? k = b.bottomLevels.find? k
  slot_in : ∀ k x, ¬ s.Better b.tkBeginTop k → b.bottomLevels.find? k = some x →
    c.slot (s.dist b.tkBeginTop k) = x
  slot_out : ∀ m, (∀ k, ¬ s.Better b.tkBeginTop k → b.bottomLevels.find? k ≠ none →
    s.dist b.tkBeginTop k ≠ m) → c.slot m = b.slot m

theorem moveBottomToTop_run {b : ArrayBasedBookSide s}
    (hlen : ∀ k, ¬ s.Better b.tkBeginTop k → b.bottomLevels.find? k ≠ none →
      s.dist b.tkBeginTop k < b.topLevels.length) :
    ∃ c, moveBottomToTop.run b = .ok () c ∧ Refilled b c := by
  have hfind : ∀ e ∈ b.bottomLevels.entries, b.bottomLevels.find? e.1 = some e.2 := fun e he =>
    OrderedMap.find?_eq_some_iff.2 he
  cases hempty : b.bottomLevels.isEmpty with
  | true =>
      have hnone : ∀ k, b.bottomLevels.find? k = none := fun k => by
        rw [OrderedMap.find?, List.isEmpty_iff.1 hempty]
        rfl
      refine ⟨b, ?_, rfl, rfl, fun k _ => hnone k, fun _ _ => rfl, fun k x _ hx => ?_,
        fun _ _ => rfl⟩
      · rw [moveBottomToTop, EStateM.run_bind, EStateM.run_get]
        simp only [hempty, if_true, EStateM.run_pure]
      · rw [hnone k] at hx
        exact absurd hx (by simp)
  | false =>
      obtain ⟨c, hc, hstate, hlength, hin, hout⟩ := moveBottomLoop_run (n := 0) (b := b)
        b.bottomLevels.sorted
        (fun e he h => hlen e.1 (fits_iff.1 h) (by simp [hfind e he]))
      rw [Nat.zero_add] at hc
      have hdrop := b.bottomLevels.find?_dropFirst (p := b.fits) fun i j hij hj =>
        fits_iff.2 fun h => fits_iff.1 hj (Side.better_trans h hij)
      generalize (b.bottomLevels.entries.takeWhile fun e => b.fits e.1).length = n at hc hdrop
      have hcb : c.bottomLevels = b.bottomLevels := by rw [hstate]
      refine ⟨c.setBottom (b.bottomLevels.dropFirst n), ?_, ?_, hlength, fun k hk => ?_,
        fun k hk => ?_, fun k x hk hx => ?_, fun m hm => ?_⟩
      · rw [moveBottomToTop, EStateM.run_bind, EStateM.run_get]
        simp only [hempty, if_false, EStateM.run_bind, hc, EStateM.run_modify, hcb,
          Bool.false_eq_true]
        rfl
      · rw [hstate]
        rfl
      · rw [setBottom_bottomLevels, hdrop, if_pos (fits_iff.2 hk)]
      · rw [setBottom_bottomLevels, hdrop, if_neg (fun h => fits_iff.1 h hk)]
      · exact hin (k, x) (OrderedMap.find?_eq_some_iff.1 hx) (fits_iff.2 hk)
      · exact hout m fun e he h => hm e.1 (fits_iff.1 h) (by simp [hfind e he])

/-! ## The next inside -/

/-- The highest nonzero element of the vector below `n` is `m`. -/
def Highest (b : ArrayBasedBookSide s) (n m : Nat) : Prop :=
  m < n ∧ b.slot m ≠ 0 ∧ ∀ j, m < j → j < n → b.slot j = 0

theorem nextBestLoop_eq {b : ArrayBasedBookSide s} {n : Nat} (hlen : n ≤ b.topLevels.length)
    (hreach : ∀ m, m < n → s.Reaches b.tkBeginTop m) :
    (b.nextBestLoop n = .ok s.tkEmptyQuote ∧ ∀ m, m < n → b.slot m = 0) ∨
      ∃ m, b.Highest n m ∧ b.nextBestLoop n = .ok (s.levelAt b.tkBeginTop m) := by
  induction n with
  | zero => exact Or.inl ⟨rfl, fun m hm => absurd hm (Nat.not_lt_zero m)⟩
  | succ n ih =>
      have hstep : b.nextBestLoop (n + 1) =
          if b.slot n ≠ 0 then .ok (s.levelAt b.tkBeginTop n) else b.nextBestLoop n := by
        rw [nextBestLoop, top_eq (by omega), Side.relativeToLevel_eq (hreach n (by omega))]
        rfl
      by_cases h0 : b.slot n = 0
      · rw [hstep, if_neg (not_not.2 h0)]
        rcases ih (by omega) (fun m hm => hreach m (by omega)) with ⟨heq, hz⟩ | ⟨m, hm, heq⟩
        · refine Or.inl ⟨heq, fun m hm => ?_⟩
          rcases Nat.lt_succ_iff_lt_or_eq.1 hm with h | h
          · exact hz m h
          · exact h ▸ h0
        · refine Or.inr ⟨m, ⟨by have := hm.1; omega, hm.2.1, fun j h₁ h₂ => ?_⟩, heq⟩
          rcases Nat.lt_succ_iff_lt_or_eq.1 h₂ with h | h
          · exact hm.2.2 j h₁ h
          · exact h ▸ h0
      · rw [hstep, if_pos h0]
        exact Or.inr ⟨n, ⟨by omega, h0, fun j h₁ h₂ => by omega⟩, rfl⟩

theorem nextBestPriceLevel_eq {b : ArrayBasedBookSide s} (hw : Window b) :
    (b.nextBestPriceLevel = .ok s.tkEmptyQuote ∧
        ∀ m, m < s.dist b.tkBeginTop b.tkInside → b.slot m = 0) ∨
      ∃ m, b.Highest (s.dist b.tkBeginTop b.tkInside) m ∧
        b.nextBestPriceLevel = .ok (s.levelAt b.tkBeginTop m) := by
  have hlen := hw.length_eq
  have hlt := hw.dist_lt
  have hrun : b.nextBestPriceLevel = b.nextBestLoop (s.dist b.tkBeginTop b.tkInside) := by
    rw [nextBestPriceLevel, Side.levelToRelative_eq hw.not_better]
    show (if _ then _ else _) = _
    split_ifs with h0
    · rw [h0]
      rfl
    · rfl
  rw [hrun]
  exact nextBestLoop_eq (by omega) fun m hm => hw.reaches (by omega)

/-- The state in which the window is redefined around the best level of the map. -/
def rewindowed (b : ArrayBasedBookSide s) : ArrayBasedBookSide s :=
  let k := b.bottomLevels.bestKey.getD s.tkEmptyQuote
  b.setWindow k (s.limitTopPrices k (b.maxSize / 2)).1 (s.limitTopPrices k (b.maxSize / 2)).2

/-- What the removal of the inside level leaves: the next level of the vector becomes the inside, or
the window is refilled from the map. The level of the empty quote counts as no level. -/
def NextInside (b c : ArrayBasedBookSide s) : Prop :=
  (∃ m, b.Highest (s.dist b.tkBeginTop b.tkInside) m ∧
      s.levelAt b.tkBeginTop m ≠ s.tkEmptyQuote ∧
      c = b.setWindow (s.levelAt b.tkBeginTop m) b.tkBeginTop b.tkEndTop) ∨
    ((∀ m, m < s.dist b.tkBeginTop b.tkInside → b.slot m ≠ 0 →
        s.levelAt b.tkBeginTop m = s.tkEmptyQuote) ∧ Refilled b.rewindowed c)

theorem nextInside_run {b : ArrayBasedBookSide s} (hw : Window b)
    (hlen : ∀ k, ¬ s.Better b.rewindowed.tkBeginTop k → b.bottomLevels.find? k ≠ none →
      s.dist b.rewindowed.tkBeginTop k < b.topLevels.length) :
    ∃ c, nextInside.run b = .ok () c ∧ NextInside b c := by
  obtain ⟨c, hc, hrefill⟩ := moveBottomToTop_run (b := b.rewindowed) hlen
  have hrun : ∀ k, b.nextBestPriceLevel = .ok k → nextInside.run b =
      if k = s.tkEmptyQuote then moveBottomToTop.run b.rewindowed
      else .ok () (b.setWindow k b.tkBeginTop b.tkEndTop) := by
    intro k hk
    simp only [nextInside, EStateM.run_bind, EStateM.run_get, hk, liftExcept, EStateM.run_pure,
      EStateM.run_modify]
    split_ifs with h
    · cases hf : b.bottomLevels.first? <;>
        simp only [EStateM.run_bind, EStateM.run_get, EStateM.run_modify, hf, rewindowed,
          Depth.bestKey, Option.map, Option.getD, h] <;> rfl
    · rfl
  rcases nextBestPriceLevel_eq hw with ⟨heq, hz⟩ | ⟨m, hm, heq⟩
  · refine ⟨c, ?_, Or.inr ⟨fun m h h0 => absurd (hz m h) h0, hrefill⟩⟩
    rw [hrun _ heq, if_pos rfl, hc]
  · by_cases hempty : s.levelAt b.tkBeginTop m = s.tkEmptyQuote
    · refine ⟨c, ?_, Or.inr ⟨fun j hj h0 => ?_, hrefill⟩⟩
      · rw [hrun _ heq, if_pos hempty, hc]
      · -- the elements below the highest one stand for levels that are not better
        have hjm : j ≤ m := Nat.le_of_not_lt fun h => h0 (hm.2.2 j h hj)
        have hle := Side.levelAt_le (hw.reaches (m := j) (by omega))
        refine Side.eq_of_not_better ?_ (Side.not_better_tkEmptyQuote hle)
        rw [← hempty]
        exact Side.not_better_levelAt_of_le hjm
    · refine ⟨_, ?_, Or.inl ⟨m, hm, hempty, rfl⟩⟩
      rw [hrun _ heq, if_neg hempty]

end JayBeams.Itch5.ArrayBasedBookSide
