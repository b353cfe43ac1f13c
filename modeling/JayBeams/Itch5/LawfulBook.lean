import JayBeams.Itch5.ArrayObservers
import JayBeams.Itch5.ArrayOperations
import JayBeams.Itch5.MapBasedOrderBook

/-!
# Lawful book sides

`LawfulBook` relates the sides of a book type to the depths that they show. A book type numbers the
prices it accepts by keys, the price itself for the map-based side and the price level for the
array-based one, and quotes a key at a price, which is never above the prices that it stands for. Both
operations act on the depth of one key; the observers depend on the depth only.

A vector of a single element forgets what it held at the inside when more is added there. The law of
`add_order` tells the sides that do not (`Exact`) from those that do; no other key changes in either.
-/

set_option autoImplicit false

namespace JayBeams.Itch5

open Containers

/-- The laws of a type of book sides. -/
class LawfulBook (β : Side → Type) [BookType β] where
  /-- the configurations that are validated -/
  ValidConfig : BookType.Config β → Prop
  /-- the prices for which the laws hold -/
  Accepts : Nat → Prop
  /-- the key of a price -/
  key : Nat → Nat
  /-- the price at which a key is quoted -/
  keyPrice : Nat → Nat
  keyPrice_better : ∀ (s : Side) (j k : Nat), s.Better (keyPrice j) (keyPrice k) ↔ s.Better j k
  /-- prices are rounded down -/
  keyPrice_le_iff : ∀ k px : Nat, keyPrice k ≤ px ↔ k ≤ key px
  /-- the side shows the depth -/
  Shows : {s : Side} → β s → Depth s → Prop
  /-- the side keeps all that is added -/
  Exact : {s : Side} → β s → Prop
  make_shows : ∀ {cfg : BookType.Config β} (s : Side), ValidConfig cfg →
    Shows (BookType.make cfg s) OrderedMap.empty
  positive : ∀ {s : Side} {b : β s} {d : Depth s}, Shows b d → d.Positive
  add_shows : ∀ {s : Side} {b : β s} {d : Depth s} {px : Nat} {qty : Int}, Shows b d →
    Accepts px → 0 < qty → FitsInt (d.qtyAt (key px) + qty) →
    ∃ (c : β s) (e : Depth s),
      (BookType.addOrder px qty).run b = .ok (decide (e.bestKey = some (key px))) c ∧ Shows c e ∧
        (∀ j, j ≠ key px → e.find? j = d.find? j) ∧ e.find? (key px) ≠ none ∧
        e.qtyAt (key px) ≤ d.qtyAt (key px) + qty ∧
        (Exact c ↔ Exact b) ∧ (Exact b → e = d.addQty (key px) qty) ∧
        (¬ Exact b → e.qtyAt (key px) =
          if d.bestKey = some (key px) then qty else d.qtyAt (key px) + qty)
  reduce_shows : ∀ {s : Side} {b : β s} {d : Depth s} {px : Nat} {qty : Int}, Shows b d →
    Accepts px → 0 < qty → FitsInt qty →
    (d.find? (key px) = none ∧ ∃ f, (BookType.reduceOrder px qty).run b = .error (.feedError f) b) ∨
      (d.find? (key px) ≠ none ∧ ∃ c : β s,
        (BookType.reduceOrder px qty).run b = .ok (decide (d.bestKey = some (key px))) c ∧
          Shows c (d.reduceQty (key px) qty) ∧ (Exact c ↔ Exact b))
  bestQuote_eq : ∀ {s : Side} {b : β s} {d : Depth s}, Shows b d →
    BookType.bestQuote b = .ok (s.quote keyPrice d.first?)
  worstQuote_eq : ∀ {s : Side} {b : β s} {d : Depth s}, Shows b d →
    BookType.worstQuote b = .ok (s.quote keyPrice d.last?)
  count_eq : ∀ {s : Side} {b : β s} {d : Depth s}, Shows b d → BookType.count b = .ok d.size

namespace MapBasedBookSide

variable {s : Side} {b : MapBasedBookSide s} {px : Nat} {qty : Int}

/-- An addition always returns: whether the inside is at its price. -/
theorem addOrder_run (px : Nat) (qty : Int) (b : MapBasedBookSide s) :
    (addOrder px qty).run b =
      .ok (decide ((b.levels.addQty px qty).bestKey = some px)) ⟨b.levels.addQty px qty⟩ :=
  rfl

/-- A reduction at a price without a level raises. -/
theorem reduceOrder_run_none (h : b.levels.find? px = none) :
    (reduceOrder px qty).run b = .error (.feedError .nonExistingPriceLevel) b := by
  simp only [reduceOrder, EStateM.run_bind, EStateM.run_get, h]
  rfl

/-- A reduction returns whether the inside was at its price, before the level is erased. -/
theorem reduceOrder_run_some (h : b.levels.find? px ≠ none) :
    (reduceOrder px qty).run b =
      .ok (decide (b.levels.bestKey = some px)) ⟨b.levels.reduceQty px qty⟩ := by
  obtain ⟨x, hx⟩ := Option.ne_none_iff_exists'.1 h
  have hbest : Depth.bestKey (b.levels.modify px fun y => int32 (y - qty)) = b.levels.bestKey := by
    apply Depth.bestKey_congr
    intro j
    rw [OrderedMap.find?_modify]
    by_cases hj : j = px
    · simp [hj, hx]
    · rw [if_neg hj]
  have hreduce : b.levels.reduceQty px qty =
      if int32 (x - qty) ≤ 0 then
        (b.levels.modify px fun y => int32 (y - qty)).erase px
      else b.levels.modify px fun y => int32 (y - qty) := by
    rw [Depth.reduceQty, Depth.qtyAt, hx, Option.getD_some]
    split_ifs
    · apply OrderedMap.ext_find?
      intro j
      rw [OrderedMap.find?_erase, OrderedMap.find?_erase, OrderedMap.find?_modify]
      split_ifs <;> rfl
    · rfl
  simp only [reduceOrder, EStateM.run_bind, EStateM.run_get, hx, EStateM.run_modify, hbest, hreduce]
  split_ifs <;> rfl

/-- The map-based book takes any price, and orders its levels by the prices themselves. -/
instance : LawfulBook MapBasedBookSide where
  ValidConfig _ := True
  Accepts _ := True
  key px := px
  keyPrice px := px
  keyPrice_better _ _ _ := Iff.rfl
  keyPrice_le_iff _ _ := Iff.rfl
  Shows b d := b.levels = d ∧ d.Positive
  Exact _ := True
  make_shows _ _ := ⟨rfl, Depth.positive_empty⟩
  positive h := h.2
  add_shows := by
    rintro s b d px qty ⟨rfl, hpos⟩ - hq hfit
    refine ⟨_, _, addOrder_run px qty b, ⟨rfl, Depth.positive_addQty hpos hq hfit⟩, ?_, ?_, ?_,
      Iff.rfl, fun _ => rfl, fun h => absurd trivial h⟩
    · intro j hj
      rw [Depth.find?_addQty]
      exact if_neg hj
    · rw [Depth.find?_addQty, if_pos rfl]
      simp
    · rw [Depth.qtyAt_addQty, if_pos rfl, int32_of_fits hfit]
  reduce_shows := by
    rintro s b d px qty ⟨rfl, hpos⟩ - hq hfit
    by_cases h : b.levels.find? px = none
    · exact Or.inl ⟨h, _, reduceOrder_run_none h⟩
    · exact Or.inr ⟨h, _, reduceOrder_run_some h,
        ⟨rfl, Depth.positive_reduceQty hpos px hq hfit⟩, Iff.rfl⟩
  bestQuote_eq := by
    rintro s b d ⟨rfl, -⟩
    show Except.ok b.bestQuote = _
    rw [bestQuote]
    cases b.levels.first? <;> rfl
  worstQuote_eq := by
    rintro s b d ⟨rfl, -⟩
    show Except.ok b.worstQuote = _
    rw [worstQuote]
    cases b.levels.last? <;> rfl
  count_eq := by
    rintro s b d ⟨rfl, -⟩
    rfl

end MapBasedBookSide

namespace ArrayBasedBookSide

variable {s : Side}

/-- An addition leaves the other levels as they are. -/
theorem find?_addedTo_of_ne (maxSize : Nat) (d : Depth s) {j k : Nat} (h : j ≠ k) (qty : Int) :
    (addedTo maxSize d k qty).find? j = d.find? j := by
  rw [addedTo]
  split_ifs
  · rw [Depth.find?_addQty, if_neg h, OrderedMap.find?_erase, if_neg h]
  · rw [Depth.find?_addQty, if_neg h]

/-- There is a level where something was added. -/
theorem find?_addedTo_self (maxSize : Nat) (d : Depth s) (k : Nat) (qty : Int) :
    (addedTo maxSize d k qty).find? k ≠ none := by
  rw [addedTo]
  split_ifs
  · simp [Depth.find?_addQty]
  · simp [Depth.find?_addQty]

/-- What a level holds after an addition: a vector of one element forgets what the inside held. -/
theorem qtyAt_addedTo_self {d : Depth s} (hd : d.Positive) (maxSize : Nat) {k : Nat} {qty : Int}
    (hq : 0 < qty) (hfit : FitsInt (d.qtyAt k + qty)) :
    (addedTo maxSize d k qty).qtyAt k =
      if maxSize = 1 ∧ d.bestKey = some k then qty else d.qtyAt k + qty := by
  have hnonneg := Depth.qtyAt_nonneg hd k
  rw [addedTo]
  split_ifs
  · have hzero : Depth.qtyAt (d.erase k) k = 0 := by
      rw [Depth.qtyAt, OrderedMap.find?_erase, if_pos rfl, Option.getD_none]
    have hfit' : FitsInt (0 + qty) := by
      unfold FitsInt at *
      omega
    rw [Depth.qtyAt_addQty, if_pos rfl, hzero, int32_of_fits hfit', Int.zero_add]
  · rw [Depth.qtyAt_addQty, if_pos rfl, int32_of_fits hfit]

/-- A level never holds more than what it held and what was added. -/
theorem qtyAt_addedTo_le {d : Depth s} (hd : d.Positive) (maxSize : Nat) {k : Nat} {qty : Int}
    (hq : 0 < qty) (hfit : FitsInt (d.qtyAt k + qty)) :
    (addedTo maxSize d k qty).qtyAt k ≤ d.qtyAt k + qty := by
  have hnonneg := Depth.qtyAt_nonneg hd k
  rw [qtyAt_addedTo_self hd maxSize hq hfit]
  split_ifs
  · omega
  · exact le_rfl

/-- The array-based book takes the prices in the range of its vectors, and orders its levels by their
numbers. -/
instance : LawfulBook ArrayBasedBookSide where
  ValidConfig cfg := cfg.validate = true
  Accepts px := 0 < px ∧ px < maxPriceFieldValue price4
  key := level
  keyPrice := levelPrice
  keyPrice_better s j k := by
    cases s with
    | buy => exact levelPrice_lt_iff
    | sell => exact levelPrice_lt_iff
  keyPrice_le_iff _ _ := levelPrice_le_iff
  Shows b d := Represents b d
  Exact b := b.maxSize ≠ 1
  make_shows _ hcfg := represents_make _ hcfg
  positive h := h.positive
  add_shows := by
    rintro s b d px qty h ⟨h0, hpx⟩ hq hfit
    have hk := level_lt_levelMax hpx
    have hsafe : ¬ PastEnd s b.maxSize (level px) := fun hp =>
      absurd hp.2.1 (Nat.pos_iff_ne_zero.1 (level_pos h0))
    obtain ⟨r, c, hrun, hstep⟩ := addOrder_run h.window hq hpx hsafe
    obtain ⟨hc, hr⟩ := hstep.represents h (level_pos h0) hk hq hfit
    have hsize := (hstep.window_kept h.window hk hsafe).2
    refine ⟨c, addedTo b.maxSize d (level px) qty, hr ▸ hrun, hc,
      fun j hj => find?_addedTo_of_ne _ d hj qty, find?_addedTo_self _ d _ qty,
      qtyAt_addedTo_le h.positive b.maxSize hq hfit, by rw [hsize],
      fun hmany => addedTo_eq (fun hs => hmany hs.1) qty, fun hone => ?_⟩
    have hsingle : b.maxSize = 1 := not_not.1 hone
    rw [qtyAt_addedTo_self h.positive b.maxSize hq hfit]
    simp only [hsingle, true_and]
  reduce_shows := by
    rintro s b d px qty h ⟨h0, hpx⟩ hq hfit
    rcases reduceOrder_run h.window hq hpx with ⟨f, hrun, hstep⟩ | ⟨r, c, hrun, hstep⟩
    · rcases hstep.represents h hq hfit with ⟨-, hnone, -⟩ | ⟨ho, -, -⟩
      · exact Or.inl ⟨hnone, f, hrun⟩
      · exact absurd ho (by simp)
    · rcases hstep.represents h hq hfit with ⟨ho, -, -⟩ | ⟨ho, hsome, hc⟩
      · exact absurd ho (by simp)
      · refine Or.inr ⟨hsome, c, Option.some.inj ho ▸ hrun, hc, ?_⟩
        rw [(hstep.window_kept h.window).2]
  bestQuote_eq h := h.bestQuote_eq
  worstQuote_eq h := h.worstQuote_eq
  count_eq h := h.count_eq

end ArrayBasedBookSide

end JayBeams.Itch5
