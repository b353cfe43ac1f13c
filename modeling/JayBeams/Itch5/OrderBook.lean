import JayBeams.Itch5.LawfulBook

/-!
# Order books

`order_book` holds the two sides of the book of one security and forwards each operation to the side
that the `Buy/Sell Indicator` names. `OrderBook.Shows` relates a book to the depths of its two sides;
the laws of the sides carry over, with the other side unchanged (`handleAddOrder_shows`,
`handleOrderReduced_shows`).
-/

set_option autoImplicit false

namespace JayBeams.Itch5

open Containers

/-- `order_book` -/
structure OrderBook (β : Side → Type) where
  buy : β .buy
  sell : β .sell

namespace OrderBook

variable {β : Side → Type}

def side (b : OrderBook β) : (s : Side) → β s
  | .buy => b.buy
  | .sell => b.sell

def setSide (b : OrderBook β) : (s : Side) → β s → OrderBook β
  | .buy, c => { b with buy := c }
  | .sell, c => { b with sell := c }

@[simp] theorem side_setSide_self (b : OrderBook β) (s : Side) (c : β s) :
    (b.setSide s c).side s = c := by
  cases s <;> rfl

theorem side_setSide_of_ne (b : OrderBook β) {s t : Side} (h : t ≠ s) (c : β s) :
    (b.setSide s c).side t = b.side t := by
  cases s <;> cases t <;> first | rfl | exact absurd rfl h

section Operations

variable [BookType β]

/-- The constructor -/
def make (cfg : BookType.Config β) : OrderBook β := ⟨BookType.make cfg .buy, BookType.make cfg .sell⟩

/-- `best_bid` -/
def bestBid (b : OrderBook β) : Except Failure HalfQuote := BookType.bestQuote b.buy

/-- `worst_bid` -/
def worstBid (b : OrderBook β) : Except Failure HalfQuote := BookType.worstQuote b.buy

/-- `best_offer` -/
def bestOffer (b : OrderBook β) : Except Failure HalfQuote := BookType.bestQuote b.sell

/-- `worst_offer` -/
def worstOffer (b : OrderBook β) : Except Failure HalfQuote := BookType.worstQuote b.sell

/-- `get_book_depth` -/
def getBookDepth (b : OrderBook β) : Except Failure Nat := do
  let buyCount ← BookType.count b.buy
  let sellCount ← BookType.count b.sell
  return buyCount + sellCount

/-- `handle_add_order` -/
def handleAddOrder (side : Side) (px : Nat) (qty : Int) : EStateM Failure (OrderBook β) Bool :=
  match side with
  | .buy => onPart OrderBook.buy (fun t b => { b with buy := t }) (BookType.addOrder px qty)
  | .sell => onPart OrderBook.sell (fun t b => { b with sell := t }) (BookType.addOrder px qty)

/-- `handle_order_reduced` -/
def handleOrderReduced (side : Side) (px : Nat) (reducedQty : Int) :
    EStateM Failure (OrderBook β) Bool :=
  match side with
  | .buy =>
      onPart OrderBook.buy (fun t b => { b with buy := t }) (BookType.reduceOrder px reducedQty)
  | .sell =>
      onPart OrderBook.sell (fun t b => { b with sell := t }) (BookType.reduceOrder px reducedQty)

variable {b : OrderBook β} {s : Side} {px : Nat} {qty : Int} {r : Bool} {c : β s}

theorem handleAddOrder_ok (h : (BookType.addOrder px qty).run (b.side s) = .ok r c) :
    (handleAddOrder s px qty).run b = .ok r (b.setSide s c) := by
  cases s with
  | buy => exact onPart_run_ok _ _ h
  | sell => exact onPart_run_ok _ _ h

theorem handleOrderReduced_ok (h : (BookType.reduceOrder px qty).run (b.side s) = .ok r c) :
    (handleOrderReduced s px qty).run b = .ok r (b.setSide s c) := by
  cases s with
  | buy => exact onPart_run_ok _ _ h
  | sell => exact onPart_run_ok _ _ h

theorem handleOrderReduced_error {e : Failure}
    (h : (BookType.reduceOrder px qty).run (b.side s) = .error e (b.side s)) :
    (handleOrderReduced s px qty).run b = .error e b := by
  cases s with
  | buy => exact onPart_run_error _ _ h
  | sell => exact onPart_run_error _ _ h

end Operations

/-! ## The depths of the two sides -/

/-- The depths of the two sides of a book. -/
abbrev Depths := (s : Side) → Depth s

section Lawful

variable [BookType β] [LawfulBook β]

/-- The two sides of the book show the depths. -/
def Shows (b : OrderBook β) (D : Depths) : Prop := ∀ s, LawfulBook.Shows (b.side s) (D s)

/-- A quantity was added at one key of one side. -/
structure Added (b c : OrderBook β) (D E : Depths) (s : Side) (k : Nat) (qty : Int) : Prop where
  shows : c.Shows E
  other : ∀ t, t ≠ s → E t = D t
  rest : ∀ j, j ≠ k → (E s).find? j = (D s).find? j
  present : (E s).find? k ≠ none
  qty_le : (E s).qtyAt k ≤ (D s).qtyAt k + qty
  exact_iff : ∀ t, LawfulBook.Exact (c.side t) ↔ LawfulBook.Exact (b.side t)
  exact : LawfulBook.Exact (b.side s) → E s = (D s).addQty k qty
  forgotten : ¬ LawfulBook.Exact (b.side s) →
    (E s).qtyAt k = if (D s).bestKey = some k then qty else (D s).qtyAt k + qty

/-- A quantity was taken away from one key of one side. -/
structure Reduced (b c : OrderBook β) (D E : Depths) (s : Side) (k : Nat) (qty : Int) : Prop where
  shows : c.Shows E
  other : ∀ t, t ≠ s → E t = D t
  reduced : E s = (D s).reduceQty k qty
  exact_iff : ∀ t, LawfulBook.Exact (c.side t) ↔ LawfulBook.Exact (b.side t)

variable {b : OrderBook β} {D : Depths} {px : Nat} {qty : Int}

theorem shows_make {cfg : BookType.Config β} (hcfg : LawfulBook.ValidConfig cfg) :
    (make cfg).Shows fun _ => OrderedMap.empty := by
  intro s
  cases s with
  | buy => exact LawfulBook.make_shows .buy hcfg
  | sell => exact LawfulBook.make_shows .sell hcfg

theorem Added.qtyAt_of_ne {b c : OrderBook β} {D E : Depths} {s t : Side} {j k : Nat} {qty : Int}
    (h : Added b c D E s k qty) (hne : t = s → j ≠ k) : (E t).qtyAt j = (D t).qtyAt j := by
  rcases eq_or_ne t s with rfl | hts
  · rw [Depth.qtyAt, Depth.qtyAt, h.rest j (hne rfl)]
  · rw [h.other t hts]

theorem Reduced.qtyAt_of_ne {b c : OrderBook β} {D E : Depths} {s t : Side} {j k : Nat} {qty : Int}
    (h : Reduced b c D E s k qty) (hne : t = s → j ≠ k) : (E t).qtyAt j = (D t).qtyAt j := by
  rcases eq_or_ne t s with rfl | hts
  · rw [Depth.qtyAt, Depth.qtyAt, h.reduced, Depth.find?_reduceQty, if_neg (hne rfl)]
  · rw [h.other t hts]

/-- The depths with one side replaced. -/
def Depths.set (D : Depths) (s : Side) (d : Depth s) : Depths := fun t =>
  if h : t = s then h ▸ d else D t

theorem Depths.set_self (D : Depths) (s : Side) (d : Depth s) : D.set s d s = d := by
  simp [Depths.set]

theorem Depths.set_of_ne (D : Depths) {s t : Side} (h : t ≠ s) (d : Depth s) : D.set s d t = D t := by
  simp [Depths.set, h]

/-- A book that shows the depths, with one side replaced. -/
theorem Shows.setSide (h : b.Shows D) {s : Side} {c : β s} {d : Depth s}
    (hc : LawfulBook.Shows c d) : (b.setSide s c).Shows (D.set s d) := by
  intro t
  rcases eq_or_ne t s with rfl | hts
  · rw [side_setSide_self, Depths.set_self]
    exact hc
  · rw [side_setSide_of_ne b hts, Depths.set_of_ne D hts]
    exact h t

theorem exact_setSide_iff {s : Side} {c : β s}
    (h : LawfulBook.Exact c ↔ LawfulBook.Exact (b.side s)) (t : Side) :
    LawfulBook.Exact ((b.setSide s c).side t) ↔ LawfulBook.Exact (b.side t) := by
  rcases eq_or_ne t s with rfl | hts
  · rw [side_setSide_self]
    exact h
  · rw [side_setSide_of_ne b hts]

theorem handleAddOrder_shows (h : b.Shows D) (s : Side) (hpx : LawfulBook.Accepts β px)
    (hq : 0 < qty) (hfit : FitsInt ((D s).qtyAt (LawfulBook.key β px) + qty)) :
    ∃ r c E, (handleAddOrder s px qty).run b = .ok r c ∧
      Added b c D E s (LawfulBook.key β px) qty := by
  obtain ⟨c, e, hrun, hc, hrest, hpresent, hle, hiff, hexact, hforgotten⟩ :=
    LawfulBook.add_shows (h s) hpx hq hfit
  refine ⟨_, b.setSide s c, D.set s e, handleAddOrder_ok hrun, ?_⟩
  constructor
  case shows => exact h.setSide hc
  case other => exact fun t ht => D.set_of_ne ht e
  case rest => rwa [Depths.set_self]
  case present => rwa [Depths.set_self]
  case qty_le => rwa [Depths.set_self]
  case exact_iff => exact exact_setSide_iff hiff
  case exact => rwa [Depths.set_self]
  case forgotten => rwa [Depths.set_self]

/-- A reduction at a key that is not there raises and changes nothing. -/
theorem handleOrderReduced_shows (h : b.Shows D) (s : Side) (hpx : LawfulBook.Accepts β px)
    (hq : 0 < qty) (hfit : FitsInt qty) :
    ∃ c E, Reduced b c D E s (LawfulBook.key β px) qty ∧
      ((D s).find? (LawfulBook.key β px) ≠ none ∧
          (∃ r, (handleOrderReduced s px qty).run b = .ok r c) ∨
        (D s).find? (LawfulBook.key β px) = none ∧ c = b ∧
          ∃ f, (handleOrderReduced s px qty).run b = .error (.feedError f) b) := by
  rcases LawfulBook.reduce_shows (h s) hpx hq hfit with
    ⟨hnone, f, hrun⟩ | ⟨hsome, c, hrun, hc, hiff⟩
  · have hsame : D s = (D s).reduceQty (LawfulBook.key β px) qty :=
      (Depth.reduceQty_of_none hnone qty).symm
    refine ⟨b, D, ⟨h, fun _ _ => rfl, hsame, fun _ => Iff.rfl⟩, Or.inr ⟨hnone, rfl, f, ?_⟩⟩
    exact handleOrderReduced_error hrun
  · refine ⟨b.setSide s c, D.set s ((D s).reduceQty (LawfulBook.key β px) qty), ?_,
      Or.inl ⟨hsome, _, handleOrderReduced_ok hrun⟩⟩
    exact ⟨h.setSide hc, fun t ht => D.set_of_ne ht _, D.set_self s _, exact_setSide_iff hiff⟩

end Lawful

end OrderBook

end JayBeams.Itch5
