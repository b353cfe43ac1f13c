import JayBeams.Itch5.LawfulBook

/-!
# The array-based side refines the map-based side

Both types of sides show a depth, one keyed by price levels and the other by prices.
`Depth.toPrices` renames the keys, and commutes with the updates when prices are aligned to the
tick. Fed with the same operations, the two sides keep showing one depth, so that whatever can be
observed of them is the same.
-/

set_option autoImplicit false

namespace JayBeams.Itch5

open Containers Machines

variable {s : Side}

namespace Depth

theorem better_levelPrice (a b : Nat) (h : s.Better a b) :
    s.Better (levelPrice a) (levelPrice b) := by
  cases s with
  | buy => exact levelPrice_lt_iff.2 h
  | sell => exact levelPrice_lt_iff.2 h

/-- The depth by prices of a depth by levels. -/
def toPrices (d : Depth s) : Depth s := d.mapKeys levelPrice better_levelPrice

theorem find?_toPrices (d : Depth s) (k : Nat) : d.toPrices.find? (levelPrice k) = d.find? k :=
  OrderedMap.find?_mapKeys (fun _ _ h => levelPrice_injective h) d k

theorem qtyAt_toPrices (d : Depth s) (k : Nat) : d.toPrices.qtyAt (levelPrice k) = d.qtyAt k := by
  rw [qtyAt, find?_toPrices, qtyAt]

theorem bestKey_toPrices (d : Depth s) : d.toPrices.bestKey = d.bestKey.map levelPrice := by
  rw [bestKey, toPrices, OrderedMap.first?_mapKeys, bestKey, Option.map_map, Option.map_map]
  rfl

theorem bestKey_toPrices_eq_iff (d : Depth s) (k : Nat) :
    d.toPrices.bestKey = some (levelPrice k) ↔ d.bestKey = some k := by
  rw [bestKey_toPrices]
  constructor
  · intro h
    obtain ⟨j, hj, he⟩ := Option.map_eq_some_iff.1 h
    rw [hj, levelPrice_injective he]
  · intro h
    rw [h, Option.map_some]

/-- Two depths by prices are equal when they agree at the prices of levels and have no others. -/
theorem eq_toPrices {d e : Depth s} (h : ∀ k, e.find? (levelPrice k) = d.find? k)
    (hkeys : ∀ p, (∀ k, levelPrice k ≠ p) → e.find? p = none) : e = d.toPrices := by
  apply OrderedMap.ext_find?
  intro p
  by_cases hp : ∃ k, levelPrice k = p
  · obtain ⟨k, rfl⟩ := hp
    rw [h, find?_toPrices]
  · have hp' : ∀ k, levelPrice k ≠ p := fun k hk => hp ⟨k, hk⟩
    rw [hkeys p hp', toPrices, OrderedMap.find?_mapKeys_of_forall_ne d hp']

theorem addQty_toPrices (d : Depth s) (k : Nat) (qty : Int) :
    d.toPrices.addQty (levelPrice k) qty = (d.addQty k qty).toPrices := by
  apply eq_toPrices
  · intro j
    rw [find?_addQty, find?_addQty, qtyAt_toPrices, find?_toPrices]
    exact if_congr ⟨fun h => levelPrice_injective h, fun h => h ▸ rfl⟩ rfl rfl
  · intro p hp
    rw [find?_addQty, if_neg (fun h => hp k h.symm)]
    exact OrderedMap.find?_mapKeys_of_forall_ne d hp

theorem reduceQty_toPrices (d : Depth s) (k : Nat) (qty : Int) :
    d.toPrices.reduceQty (levelPrice k) qty = (d.reduceQty k qty).toPrices := by
  apply eq_toPrices
  · intro j
    rw [find?_reduceQty, find?_reduceQty, qtyAt_toPrices, find?_toPrices, find?_toPrices]
    exact if_congr ⟨fun h => levelPrice_injective h, fun h => h ▸ rfl⟩ rfl rfl
  · intro p hp
    rw [find?_reduceQty, if_neg (fun h => hp k h.symm)]
    exact OrderedMap.find?_mapKeys_of_forall_ne d hp

end Depth

/-! ## Observations -/

/-- What the observers say of a side. -/
structure SideView where
  best : Except Failure HalfQuote
  worst : Except Failure HalfQuote
  count : Except Failure Nat

def view {β : Side → Type} [BookType β] (b : β s) : SideView :=
  ⟨BookType.bestQuote b, BookType.worstQuote b, BookType.count b⟩

/-- An operation observed: how it ended, and what the observers said before and after. -/
structure SideTrace where
  result : Except Failure Bool
  before : SideView
  after : SideView

/-- A side of a book with its observers. -/
def tracedSide (β : Side → Type) [BookType β] (s : Side) : Machine (β s) BookOp SideTrace where
  step b op :=
    let next := (sideMachine β s).step b op
    (⟨next.1, view b, view next.2⟩, next.2)

/-- Both operations returned the same, or both raised `feed_error` and changed nothing that can be
observed; afterwards the observers say the same. -/
def SideTrace.Agrees (t u : SideTrace) : Prop :=
  ((∃ r, t.result = .ok r ∧ u.result = .ok r) ∨
    ((∃ e, t.result = .error (.feedError e)) ∧ (∃ e, u.result = .error (.feedError e)) ∧
      t.after = t.before ∧ u.after = u.before)) ∧
    t.after = u.after

/-- The parameters of an operation at a price where orders can be quoted. -/
def BookOp.Valid (op : BookOp) : Prop :=
  0 < op.qty ∧ FitsInt op.qty ∧ 0 < op.px ∧ op.px < maxPriceFieldValue price4 ∧ TickAligned op.px

/-- The total of a level fits in an `int` after the operation. -/
def TotalFits (b : MapBasedBookSide s) : BookOp → Prop
  | .add px qty => FitsInt (b.levels.qtyAt px + qty)
  | .reduce _ _ => True

/-- The two sides show one depth. -/
def SameDepth (b : ArrayBasedBookSide s) (m : MapBasedBookSide s) : Prop :=
  ∃ d : Depth s, b.Represents d ∧ b.maxSize ≠ 1 ∧ m.levels = d.toPrices

section Refinement

variable {b : ArrayBasedBookSide s} {m : MapBasedBookSide s}

theorem quote_toPrices (e : Option (Nat × Int)) :
    s.quote (fun px => px) (e.map fun e => (levelPrice e.1, e.2)) = s.quote levelPrice e := by
  cases e <;> rfl

theorem SameDepth.positive (h : SameDepth b m) : m.levels.Positive := by
  obtain ⟨d, hb, -, hm⟩ := h
  intro p x hx
  rw [hm, Depth.toPrices, OrderedMap.find?_mapKeys_eq_some_iff] at hx
  obtain ⟨k, hk, -⟩ := hx
  exact hb.positive k x hk

/-- Nothing that can be observed tells the two sides apart. -/
theorem SameDepth.view_eq (h : SameDepth b m) : view b = view m := by
  have hpos := h.positive
  obtain ⟨d, hb, -, hm⟩ := h
  have hshows : LawfulBook.Shows m m.levels := ⟨rfl, hpos⟩
  have hbest : m.levels.first? = d.first?.map fun e => (levelPrice e.1, e.2) := by
    rw [hm, Depth.toPrices, OrderedMap.first?_mapKeys]
  have hworst : m.levels.last? = d.last?.map fun e => (levelPrice e.1, e.2) := by
    rw [hm, Depth.toPrices, OrderedMap.last?_mapKeys]
  have hsize : m.levels.size = d.size := by
    rw [hm, Depth.toPrices, OrderedMap.size_mapKeys]
  have hview : view m = ⟨.ok (s.quote levelPrice d.first?), .ok (s.quote levelPrice d.last?),
      .ok d.size⟩ := by
    rw [view, LawfulBook.bestQuote_eq hshows, LawfulBook.worstQuote_eq hshows,
      LawfulBook.count_eq hshows, hbest, hworst, hsize, ← quote_toPrices, ← quote_toPrices]
    rfl
  rw [hview, view]
  exact congr (congr (congrArg SideView.mk hb.bestQuote_eq) hb.worstQuote_eq) hb.count_eq

/-- Two sides that returned the same and still show one depth. -/
theorem agrees_of_ok {op : BookOp} {r : Bool} {c : ArrayBasedBookSide s} {n : MapBasedBookSide s}
    (hb : (BookOp.action op).run b = .ok r c) (hm : (BookOp.action op).run m = .ok r n)
    (h : SameDepth c n) :
    ((tracedSide ArrayBasedBookSide s).step b op).1.Agrees
        ((tracedSide MapBasedBookSide s).step m op).1 ∧
      SameDepth ((tracedSide ArrayBasedBookSide s).step b op).2
        ((tracedSide MapBasedBookSide s).step m op).2 := by
  have hstep : (sideMachine ArrayBasedBookSide s).step b op = (.ok r, c) :=
    Machine.ofAction_step_ok hb
  have hstep' : (sideMachine MapBasedBookSide s).step m op = (.ok r, n) :=
    Machine.ofAction_step_ok hm
  simp only [tracedSide, hstep, hstep']
  exact ⟨⟨Or.inl ⟨r, rfl, rfl⟩, h.view_eq⟩, h⟩

theorem step_agrees (h : SameDepth b m) {op : BookOp} (hop : op.Valid) (hfit : TotalFits m op) :
    ((tracedSide ArrayBasedBookSide s).step b op).1.Agrees
        ((tracedSide MapBasedBookSide s).step m op).1 ∧
      SameDepth ((tracedSide ArrayBasedBookSide s).step b op).2
        ((tracedSide MapBasedBookSide s).step m op).2 := by
  have hsame := h
  obtain ⟨d, hb, hsize, hm⟩ := h
  obtain ⟨hq, hqfit, h0, hpx, htick⟩ := hop
  cases op with
  | add px qty =>
      -- The price is a multiple of the tick, so that the level stands for it.
      have hprice : levelPrice (level px) = px := levelPrice_level htick
      have hqty : m.levels.qtyAt px = d.qtyAt (level px) := by
        rw [hm, ← Depth.qtyAt_toPrices d (level px), hprice]
      have hadd : (d.addQty (level px) qty).toPrices = m.levels.addQty px qty := by
        rw [← Depth.addQty_toPrices, hm, hprice]
      have hbest : (m.levels.addQty px qty).bestKey = some px ↔
          (d.addQty (level px) qty).bestKey = some (level px) := by
        rw [← hadd, ← Depth.bestKey_toPrices_eq_iff (d.addQty (level px) qty), hprice]
      obtain ⟨c, e, hrun, hc, -, -, -, hcsize, hexact, -⟩ :=
        LawfulBook.add_shows (β := ArrayBasedBookSide) hb ⟨h0, hpx⟩ hq (hqty ▸ hfit)
      obtain rfl := hexact hsize
      refine agrees_of_ok hrun ?_ (n := ⟨m.levels.addQty px qty⟩)
        ⟨_, hc, hcsize.2 hsize, hadd.symm⟩
      show (MapBasedBookSide.addOrder px qty).run m = _
      rw [MapBasedBookSide.addOrder_run]
      exact congrArg (fun r => EStateM.Result.ok r _) (decide_eq_decide.2 hbest)
  | reduce px qty =>
      have hprice : levelPrice (level px) = px := levelPrice_level htick
      have hfind : m.levels.find? px = d.find? (level px) := by
        rw [hm, ← Depth.find?_toPrices d (level px), hprice]
      have hreduce : (d.reduceQty (level px) qty).toPrices = m.levels.reduceQty px qty := by
        rw [← Depth.reduceQty_toPrices, hm, hprice]
      have hbest : m.levels.bestKey = some px ↔ d.bestKey = some (level px) := by
        rw [hm, ← Depth.bestKey_toPrices_eq_iff d (level px), hprice]
      rcases LawfulBook.reduce_shows (β := ArrayBasedBookSide) hb ⟨h0, hpx⟩ hq hqfit with
        ⟨hnone, f, hrun⟩ | ⟨hsome, c, hrun, hc, hcsize⟩
      · -- Neither side has the level: both raise, and nothing changes.
        have hrun' : (MapBasedBookSide.reduceOrder px qty).run m =
            .error (.feedError .nonExistingPriceLevel) m :=
          MapBasedBookSide.reduceOrder_run_none (hfind.trans hnone)
        have hstep : (sideMachine ArrayBasedBookSide s).step b (.reduce px qty) =
            (.error (.feedError f), b) := Machine.ofAction_step_error hrun
        have hstep' : (sideMachine MapBasedBookSide s).step m (.reduce px qty) =
            (.error (.feedError .nonExistingPriceLevel), m) := Machine.ofAction_step_error hrun'
        simp only [tracedSide, hstep, hstep']
        exact ⟨⟨Or.inr ⟨⟨f, rfl⟩, ⟨_, rfl⟩, rfl, rfl⟩, hsame.view_eq⟩, hsame⟩
      · refine agrees_of_ok hrun ?_ (n := ⟨m.levels.reduceQty px qty⟩)
          ⟨_, hc, hcsize.2 hsize, hreduce.symm⟩
        show (MapBasedBookSide.reduceOrder px qty).run m = _
        rw [MapBasedBookSide.reduceOrder_run_some fun h => hsome (hfind ▸ h)]
        exact congrArg (fun r => EStateM.Result.ok r _) (decide_eq_decide.2 hbest)

/-- Fed with the same operations, a side with room for two levels or more and a map-based side agree
after each of them. -/
theorem array_refines_map (cfg : ArrayBasedConfig) (hcfg : 2 ≤ cfg.maxSize) (s : Side)
    (ops : List BookOp) (hops : ∀ op ∈ ops, op.Valid)
    (hfit : (tracedSide MapBasedBookSide s).Along TotalFits (MapBasedBookSide.make () s) ops) :
    List.Forall₂ SideTrace.Agrees
      ((tracedSide ArrayBasedBookSide s).run (ArrayBasedBookSide.make cfg s) ops).1
      ((tracedSide MapBasedBookSide s).run (MapBasedBookSide.make () s) ops).1 := by
  have hvalid : cfg.validate = true := by
    simp only [ArrayBasedConfig.validate]
    simp
    omega
  have hinit : SameDepth (ArrayBasedBookSide.make cfg s) (MapBasedBookSide.make () s) := by
    refine ⟨OrderedMap.empty, ArrayBasedBookSide.represents_make cfg hvalid, ?_, rfl⟩
    show cfg.maxSize.toNat ≠ 1
    omega
  have halong := (Machine.along_of_forall (tracedSide MapBasedBookSide s)
    (P := fun _ op => op.Valid) (fun op hop _ => hops op hop) (MapBasedBookSide.make () s)).and hfit
  exact (Machine.run_simulation (fun b m op h hop => step_agrees h hop.1 hop.2) halong hinit).1

theorem array_refines_map_two_levels :
    List.Forall₂ SideTrace.Agrees
      ((tracedSide ArrayBasedBookSide .sell).run (ArrayBasedBookSide.make ⟨2⟩ .sell)
        [.add 20000 10, .add 10100 5, .reduce 10100 5, .reduce 300 1]).1
      ((tracedSide MapBasedBookSide .sell).run (MapBasedBookSide.make () .sell)
        [.add 20000 10, .add 10100 5, .reduce 10100 5, .reduce 300 1]).1 := by
  refine array_refines_map ⟨2⟩ (by decide) .sell _ ?_ ?_
  · simp only [List.forall_mem_cons, BookOp.Valid, BookOp.qty, BookOp.px]
    decide
  · refine ⟨?_, ?_, trivial, trivial, trivial⟩
    · show FitsInt _
      decide
    · show FitsInt _
      decide

end Refinement

end JayBeams.Itch5
