import JayBeams.Itch5.ArrayContent

/-!
# The observers of the array-based side

What `best_quote`, `worst_quote` and `count` return of a side that represents a depth is a function of
the depth: the loops over the vector and the lookups in the map find the levels that it has.
-/

set_option autoImplicit false

namespace JayBeams.Itch5.ArrayBasedBookSide

open Containers

variable {s : Side}

section Observers

variable {b : ArrayBasedBookSide s} {d : Depth s}

/-- The best quote is the first entry of the depth. -/
theorem Represents.bestQuote_eq (h : Represents b d) :
    b.bestQuote = .ok (s.quote levelPrice d.first?) := by
  cases hfirst : d.first? with
  | none =>
      have hbest : d.bestKey = none := by rw [Depth.bestKey, hfirst]; rfl
      rw [bestQuote, if_pos (h.inside_empty_iff.2 hbest)]
      rfl
  | some e =>
      have hbest : d.bestKey = some e.1 := by rw [Depth.bestKey, hfirst]; rfl
      have hin : b.tkInside = e.1 := by rw [h.inside_eq, hbest, Option.getD_some]
      have hne : b.tkInside ≠ s.tkEmptyQuote := fun he => by
        rw [h.inside_empty_iff, hbest] at he
        exact absurd he (by simp)
      have hlen : s.dist b.tkBeginTop b.tkInside < b.topLevels.length :=
        h.window.length_eq ▸ h.window.dist_lt
      have hslot : b.slot (s.dist b.tkBeginTop b.tkInside) = e.2 := by
        rw [h.slot_eq (Nat.le_refl _), Side.levelAt_dist h.window.not_better, hin, Depth.qtyAt,
          (OrderedMap.first?_eq_some_iff.1 hfirst).1, Option.getD_some]
      rw [bestQuote, if_neg hne, Side.levelToRelative_eq h.window.not_better,
        levelToPrice_price4 h.window.inside_valid.le]
      rw [hin] at hlen hslot ⊢
      simp only [bind, Except.bind, top_eq hlen, hslot]
      rfl

theorem Holds.find?_eq_some_iff (h : Holds b d) {k : Nat} {x : Int}
    (hk : ¬ s.Better b.tkBeginTop k) : d.find? k = some x ↔ b.slotOf k = x ∧ x ≠ 0 := by
  rw [← content_of_not_better hk, h.content_eq]
  cases hd : d.find? k with
  | none =>
      have hzero := (Depth.qtyAt_eq_zero_iff h.positive).2 hd
      rw [hzero]
      constructor
      · intro he
        exact absurd he (by simp)
      · rintro ⟨he, hx⟩
        exact absurd he.symm hx
  | some y =>
      have hy := (h.positive k y hd).1
      rw [Depth.qtyAt, hd, Option.getD_some, Option.some.injEq]
      constructor
      · rintro rfl
        exact ⟨rfl, by omega⟩
      · exact fun he => he.1

/-- The first element of the vector that is not zero. -/
theorem relativeWorstTopLevel_spec {m : Nat} (hm : b.slot m ≠ 0) :
    b.relativeWorstTopLevel < b.topLevels.length ∧ b.relativeWorstTopLevel ≤ m ∧
      b.slot b.relativeWorstTopLevel ≠ 0 ∧ ∀ j, j < b.relativeWorstTopLevel → b.slot j = 0 := by
  have hget : ∀ j (hj : j < b.topLevels.length), b.slot j = b.topLevels[j] := fun j hj => by
    rw [slot, List.getD_eq_getElem?_getD, List.getElem?_eq_getElem hj, Option.getD_some]
  have hmlen : m < b.topLevels.length := by
    by_contra hlen
    apply hm
    rw [slot, List.getD_eq_getElem?_getD, List.getElem?_eq_none (by omega), Option.getD_none]
  have hlt : b.relativeWorstTopLevel < b.topLevels.length := by
    refine List.findIdx_lt_length.2 ⟨b.topLevels[m], List.getElem_mem hmlen, ?_⟩
    rw [← hget m hmlen]
    simpa using hm
  have hbefore : ∀ j, j < b.relativeWorstTopLevel → b.slot j = 0 := by
    intro j hj
    rw [hget j (by omega)]
    simpa using List.not_of_lt_findIdx hj
  refine ⟨hlt, ?_, ?_, hbefore⟩
  · by_contra hgt
    exact hm (hbefore m (by omega))
  · have hfound := List.findIdx_getElem (w := hlt)
    rw [hget _ hlt]
    exact of_decide_eq_true hfound

/-- The worst quote is the last entry of the depth. -/
theorem Represents.worstQuote_eq (h : Represents b d) :
    b.worstQuote = .ok (s.quote levelPrice d.last?) := by
  cases hbest : d.bestKey with
  | none =>
      have hlast : d.last? = none :=
        OrderedMap.last?_eq_none_iff.2 (Depth.bestKey_eq_none_iff.1 hbest)
      rw [worstQuote, if_pos (h.inside_empty_iff.2 hbest), hlast]
      rfl
  | some i =>
      have hne : b.tkInside ≠ s.tkEmptyQuote := fun he => by
        rw [h.inside_empty_iff, hbest] at he
        exact absurd he (by simp)
      cases hb : b.bottomLevels.last? with
      | some e =>
          -- the levels in the map are worse than those in the vector
          obtain ⟨hfind, hworst⟩ := OrderedMap.last?_eq_some_iff.1 hb
          obtain ⟨hbetter, hvalid⟩ := h.window.bottom_worse e.1 (by simp [hfind])
          have hlast : d.last? = some e := by
            refine OrderedMap.last?_eq_some_iff.2 ⟨h.bottom_find? hbetter ▸ hfind, fun j hj hd => ?_⟩
            by_cases hjb : s.Better b.tkBeginTop j
            · exact hworst j hj (h.bottom_find? hjb ▸ hd)
            · exact Side.better_of_not_better_of_better hjb hbetter
          rw [worstQuote, if_neg hne, hb, hlast]
          simp only [levelToPrice_price4 hvalid.le]
          rfl
      | none =>
          have hempty := OrderedMap.last?_eq_none_iff.1 hb
          have hin : b.tkInside = i := by rw [h.inside_eq, hbest, Option.getD_some]
          have hslot : b.slot (s.dist b.tkBeginTop b.tkInside) ≠ 0 := by
            rw [h.slot_eq (Nat.le_refl _), Side.levelAt_dist h.window.not_better, hin]
            exact fun hz => (Depth.bestKey_eq_some_iff.1 hbest).1
              ((Depth.qtyAt_eq_zero_iff h.positive).1 hz)
          -- With an empty map the worst level is the first one of the vector that is not zero.
          obtain ⟨hlen, hle, hm, hbefore⟩ := relativeWorstTopLevel_spec hslot
          rw [worstQuote, if_neg hne, hb]
          generalize b.relativeWorstTopLevel = m at *
          have hreach := h.window.reaches hle
          have hdist := Side.dist_levelAt hreach
          have hnb := s.not_better_levelAt b.tkBeginTop m
          have hlast : d.last? = some (s.levelAt b.tkBeginTop m, b.slot m) := by
            refine OrderedMap.last?_eq_some_iff.2 ⟨?_, fun j hj hd => ?_⟩
            · rw [h.find?_eq_some_iff hnb, slotOf, hdist]
              exact ⟨rfl, hm⟩
            · by_cases hjb : s.Better b.tkBeginTop j
              · exact absurd (h.bottom_find? hjb ▸ hempty j) hd
              · by_contra hworse
                have hlt := (Side.dist_lt_iff hjb hnb).2 (by
                  by_contra hn
                  exact hj (Side.eq_of_not_better hworse hn))
                rw [hdist] at hlt
                refine hd (h.find?_eq_none_iff.2 ?_)
                rw [content_of_not_better hjb, slotOf, hbefore _ hlt]
          rw [hlast]
          simp only [Side.relativeToLevel_eq hreach, levelToPrice_price4 (Side.levelAt_le hreach),
            top_eq hlen, bind, Except.bind]
          rfl

/-- The loop counts the elements that are not zero. -/
theorem countLoop_eq {n i : Nat} (hlen : i + n ≤ b.topLevels.length) :
    b.countLoop n i = .ok ((List.range' i n).countP fun m => b.slot m ≠ 0) := by
  induction n generalizing i with
  | zero => rfl
  | succ n ih =>
      rw [countLoop, top_eq (by omega), ih (by omega), List.range'_succ, List.countP_cons]
      simp only [bind, Except.bind, pure, Except.pure, decide_eq_true_eq]
      rw [Nat.add_comm]

/-- The entries of the vector up to the inside. -/
def topEntries (b : ArrayBasedBookSide s) : List (Nat × Int) :=
  ((List.range' 0 (s.dist b.tkBeginTop b.tkInside + 1)).filter fun m => b.slot m ≠ 0).map
    fun m => (s.levelAt b.tkBeginTop m, b.slot m)

theorem mem_topEntries {k : Nat} {x : Int} (hw : Window b) :
    (k, x) ∈ b.topEntries ↔ ¬ s.Better b.tkBeginTop k ∧ ¬ s.Better k b.tkInside ∧
      b.slotOf k = x ∧ x ≠ 0 := by
  simp only [topEntries, List.mem_map, List.mem_filter, List.mem_range'_1, decide_eq_true_eq,
    Prod.mk.injEq]
  constructor
  · rintro ⟨m, ⟨⟨-, hm⟩, hslot⟩, rfl, rfl⟩
    have hdist := Side.dist_levelAt (hw.reaches (m := m) (by omega))
    have hnb := s.not_better_levelAt b.tkBeginTop m
    refine ⟨hnb, ?_, by rw [slotOf, hdist], hslot⟩
    rw [← Side.dist_le_iff hnb hw.not_better, hdist]
    omega
  · rintro ⟨hb, hi, rfl, hx⟩
    have hle := (Side.dist_le_iff hb hw.not_better).2 hi
    exact ⟨s.dist b.tkBeginTop k, ⟨⟨Nat.zero_le _, by omega⟩, hx⟩, Side.levelAt_dist hb, rfl⟩

theorem topEntries_keys_ne (hw : Window b) : b.topEntries.Pairwise fun e f => e.1 ≠ f.1 := by
  refine List.pairwise_map.2 (List.Pairwise.filter _ ?_)
  apply List.Pairwise.imp_of_mem _ List.pairwise_lt_range'
  intro i j hi hj hij he
  rw [List.mem_range'_1] at hi hj
  apply Nat.ne_of_lt hij
  have hlevel : s.levelAt b.tkBeginTop i = s.levelAt b.tkBeginTop j := he
  rw [← Side.dist_levelAt (hw.reaches (m := i) (by omega)), hlevel,
    Side.dist_levelAt (hw.reaches (m := j) (by omega))]

/-- The count is the number of entries of the depth. -/
theorem Represents.count_eq (h : Represents b d) : b.count = .ok d.size := by
  have hlen : s.dist b.tkBeginTop b.tkInside < b.topLevels.length :=
    h.window.length_eq ▸ h.window.dist_lt
  have htop : b.topLevelsCount = .ok b.topEntries.length := by
    by_cases hempty : b.tkInside = s.tkEmptyQuote
    · have hnil : b.topEntries = [] := by
        refine List.eq_nil_iff_forall_not_mem.2 fun e he => ?_
        obtain ⟨hb, -, hslot, hx⟩ := (mem_topEntries h.window).1 he
        have hnone := Depth.bestKey_eq_none_iff.1 (h.inside_empty_iff.1 hempty) e.1
        rw [h.find?_eq_none_iff, content_of_not_better hb, hslot] at hnone
        exact hx hnone
      rw [topLevelsCount, if_pos hempty, hnil]
      rfl
    · rw [topLevelsCount, if_neg hempty, Side.levelToRelative_eq h.window.not_better, topEntries,
        List.length_map, ← List.countP_eq_length_filter]
      exact countLoop_eq (by omega)
  have hsize : d.size = (b.bottomLevels.entries ++ b.topEntries).length := by
    apply OrderedMap.size_eq_length
    · refine List.pairwise_append.2 ⟨b.bottomLevels.keys_ne, topEntries_keys_ne h.window, ?_⟩
      intro e he f hf hef
      have hbetter := (h.window.bottom_worse e.1 (by
        rw [OrderedMap.find?_eq_some_iff.2 he]
        simp)).1
      exact ((mem_topEntries h.window).1 hf).1 (hef ▸ hbetter)
    · intro k x
      rw [List.mem_append, ← OrderedMap.find?_eq_some_iff, mem_topEntries h.window]
      by_cases hb : s.Better b.tkBeginTop k
      · rw [h.bottom_find? hb]
        simp [hb]
      · rw [h.window.find?_eq_none hb, h.find?_eq_some_iff hb]
        constructor
        · rintro ⟨hslot, hx⟩
          refine Or.inr ⟨hb, fun hi => hx ?_, hslot, hx⟩
          rw [← hslot]
          exact h.slot_zero _ ((Side.dist_lt_iff h.window.not_better hb).2 hi)
        · rintro (he | ⟨-, -, hslot, hx⟩)
          · exact absurd he (by simp)
          · exact ⟨hslot, hx⟩
  rw [count, htop, hsize, List.length_append]
  rfl

end Observers

end JayBeams.Itch5.ArrayBasedBookSide
