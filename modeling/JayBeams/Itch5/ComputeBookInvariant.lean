import JayBeams.Itch5.ComputeBookSteps

/-!
# Books and live orders

`Consistent` is the invariant of the books: each live order has something left and a book to be in,
and each book shows at every level what the live orders there add up to. A side that does not keep all
that is added to it may show less.

`Outcome` lists what handling a message can do from a consistent state, and `handleMessage_outcome`
says that the list is complete and that the state afterwards is consistent again. For the map-based
book this gives the content of the books after any sequence of messages (`levels_eq_live_orders`).
-/

set_option autoImplicit false

namespace JayBeams.Itch5

open Containers Machines Machines.Machine

namespace ComputeBook

variable {κ : Type} [DecidableEq κ] {β : Side → Type} [BookType β] {cb : ComputeBook κ β}
  {id : UInt64} {data : OrderData κ} {qty : Int} {c : OrderBook β}

/-! ## The invariant -/

section Lawful

variable [LawfulBook β]

/-- The book of a security shows the depths, and they are the totals of the live orders. -/
structure ShowsOrders (cb : ComputeBook κ β) (stock : κ) (D : OrderBook.Depths) : Prop where
  shows : (cb.bookOf stock).Shows D
  qty_le : ∀ s k, (D s).qtyAt k ≤ levelTotal β cb.orders stock s k
  qty_eq : ∀ s, LawfulBook.Exact ((cb.bookOf stock).side s) →
    ∀ k, (D s).qtyAt k = levelTotal β cb.orders stock s k

/-- A live order has something left, at a price of the book type, and its security has a book. -/
structure LiveOrder (cb : ComputeBook κ β) (data : OrderData κ) : Prop where
  qty_pos : 0 < data.qty
  fits : FitsInt data.qty
  accepts : LawfulBook.Accepts β data.px
  hasBook : cb.books.find? data.stock ≠ none

/-- The books and the live orders agree. -/
structure Consistent (cb : ComputeBook κ β) : Prop where
  config : LawfulBook.ValidConfig cb.cfg
  live : ∀ id data, cb.orders.find? id = some data → cb.LiveOrder data
  books : ∀ stock, ∃ D, cb.ShowsOrders stock D

theorem Consistent.qty_pos (h : cb.Consistent) (id : UInt64) (data : OrderData κ)
    (hfind : cb.orders.find? id = some data) : 0 < data.qty :=
  (h.live id data hfind).qty_pos

theorem consistent_make (hashValue : κ → UInt64) {cfg : BookType.Config β}
    (hcfg : LawfulBook.ValidConfig cfg) : (make hashValue cfg : ComputeBook κ β).Consistent where
  config := hcfg
  live id data hfind := by simp [make] at hfind
  books stock := by
    refine ⟨fun _ => OrderedMap.empty, OrderBook.shows_make hcfg, fun s k => ?_, fun s _ k => ?_⟩
    · exact le_rfl
    · rfl

/-- The book of a security after a change at one level of it. -/
theorem ShowsOrders.at_level {cb' : ComputeBook κ β} {stock : κ} {D E : OrderBook.Depths}
    (hD : cb.ShowsOrders stock D) {s : Side} {k : Nat} (hshows : (cb'.bookOf stock).Shows E)
    (hexact : ∀ t, LawfulBook.Exact ((cb'.bookOf stock).side t) ↔
      LawfulBook.Exact ((cb.bookOf stock).side t))
    (hrest : ∀ t j, (t = s → j ≠ k) → (E t).qtyAt j = (D t).qtyAt j ∧
      levelTotal β cb'.orders stock t j = levelTotal β cb.orders stock t j)
    (hle : (E s).qtyAt k ≤ levelTotal β cb'.orders stock s k)
    (heq : LawfulBook.Exact ((cb.bookOf stock).side s) →
      (E s).qtyAt k = levelTotal β cb'.orders stock s k) :
    cb'.ShowsOrders stock E := by
  constructor
  case shows => exact hshows
  case qty_le =>
    intro t j
    by_cases hne : t = s → j ≠ k
    · obtain ⟨hqty, htotal⟩ := hrest t j hne
      rw [hqty, htotal]
      exact hD.qty_le t j
    · obtain ⟨rfl, hjk⟩ := Classical.not_imp.1 hne
      obtain rfl := not_not.1 hjk
      exact hle
  case qty_eq =>
    intro t ht j
    by_cases hne : t = s → j ≠ k
    · obtain ⟨hqty, htotal⟩ := hrest t j hne
      rw [hqty, htotal]
      exact hD.qty_eq t ((hexact t).1 ht) j
    · obtain ⟨rfl, hjk⟩ := Classical.not_imp.1 hne
      obtain rfl := not_not.1 hjk
      exact heq ((hexact t).1 ht)

/-- A book that does not change, with the same orders in it. -/
theorem ShowsOrders.frame {cb' : ComputeBook κ β} {stock : κ} {D : OrderBook.Depths}
    (hD : cb.ShowsOrders stock D) (hbook : cb'.bookOf stock = cb.bookOf stock)
    (htotal : ∀ s k, levelTotal β cb'.orders stock s k = levelTotal β cb.orders stock s k) :
    cb'.ShowsOrders stock D := by
  constructor
  case shows =>
    rw [hbook]
    exact hD.shows
  case qty_le =>
    intro s k
    rw [htotal]
    exact hD.qty_le s k
  case qty_eq =>
    intro s hs k
    rw [htotal]
    exact hD.qty_eq s (hbook ▸ hs) k

/-- An order was added to its book. -/
theorem Consistent.addTo (h : cb.Consistent) (data : OrderData κ) (hid : cb.orders.find? id = none)
    (hq : 0 < data.qty) (hfit : FitsInt data.qty) (hpx : LawfulBook.Accepts β data.px)
    {D E : OrderBook.Depths} (hD : cb.ShowsOrders data.stock D)
    (htotal : FitsInt ((D data.buySellIndicator).qtyAt (LawfulBook.key β data.px) + data.qty))
    (hadd : OrderBook.Added (cb.bookOf data.stock) c D E data.buySellIndicator
      (LawfulBook.key β data.px) data.qty) :
    (cb.addTo id data c).Consistent ∧ (cb.addTo id data c).ShowsOrders data.stock E := by
  have hbook : (cb.addTo id data c).bookOf data.stock = c := by
    rw [bookOf_addTo, if_pos rfl]
  have hlevel : ∀ stock s k, levelTotal β (cb.addTo id data c).orders stock s k =
      levelTotal β cb.orders stock s k + data.levelQty β stock s k :=
    levelTotal_emplace hid data
  have hshow : (cb.addTo id data c).ShowsOrders data.stock E := by
    apply hD.at_level (s := data.buySellIndicator) (k := LawfulBook.key β data.px)
    · rw [hbook]
      exact hadd.shows
    · rw [hbook]
      exact hadd.exact_iff
    · intro t j hne
      rw [hlevel, OrderData.levelQty_of_ne data fun _ => hne, add_zero]
      exact ⟨hadd.qtyAt_of_ne hne, rfl⟩
    · rw [hlevel, OrderData.levelQty_self data]
      exact hadd.qty_le.trans (add_le_add_left (hD.qty_le _ _) _)
    · intro hexact
      rw [hlevel, OrderData.levelQty_self data, hadd.exact hexact, Depth.qtyAt_addQty, if_pos rfl,
        int32_of_fits htotal, hD.qty_eq _ hexact]
  refine ⟨⟨h.config, fun j other hj => ?_, fun stock => ?_⟩, hshow⟩
  -- The new order is live, and so are the others, which keep their books.
  · have hfind : (cb.addTo id data c).orders.find? j = _ :=
      UnorderedMap.find?_emplace cb.orders id j data
    rw [hfind, hid, Option.getD_none] at hj
    split_ifs at hj
    · obtain rfl := Option.some.inj hj
      exact ⟨hq, hfit, hpx, hasBook_addTo_self⟩
    · obtain ⟨hq', hfit', hpx', hbook'⟩ := h.live j other hj
      exact ⟨hq', hfit', hpx', hasBook_addTo hbook'⟩
  · rcases eq_or_ne stock data.stock with rfl | hstock
    · exact ⟨E, hshow⟩
    · obtain ⟨D', hD'⟩ := h.books stock
      refine ⟨D', hD'.frame ?_ fun s k => ?_⟩
      · rw [bookOf_addTo, if_neg hstock]
      · rw [hlevel, OrderData.levelQty_of_ne data fun he => absurd he hstock, add_zero]

/-- Shares were taken from an order and from its book. -/
theorem Consistent.takeFrom (h : cb.Consistent) (hfind : cb.orders.find? id = some data)
    (hq : 0 < qty) (hle : qty ≤ data.qty) {D E : OrderBook.Depths}
    (hD : cb.ShowsOrders data.stock D)
    (hred : OrderBook.Reduced (cb.bookOf data.stock) c D E data.buySellIndicator
      (LawfulBook.key β data.px) qty) :
    (cb.takeFrom id data qty c).Consistent ∧
      (cb.takeFrom id data qty c).ShowsOrders data.stock E := by
  obtain ⟨hpos, hfit, hpx, hhas⟩ := h.live id data hfind
  have hfitq : FitsInt qty := by
    unfold FitsInt at *
    omega
  have hrest : int32 (data.qty - qty) = data.qty - qty := by
    apply int32_of_fits
    unfold FitsInt at *
    omega
  have hbook : (cb.takeFrom id data qty c).bookOf data.stock = c := by
    rw [bookOf_takeFrom hhas, if_pos rfl]
  -- The total of the level falls by what is taken, which the order covers.
  have hlevel := levelTotal_takeFrom (β := β) hfind hrest c
  have htotal := qty_le_levelTotal (β := β) h.qty_pos hfind
  have hself : OrderData.levelQty β { data with qty := qty } data.stock data.buySellIndicator
      (LawfulBook.key β data.px) = qty := OrderData.levelQty_self { data with qty := qty }
  -- The side may hold less than the order, so what is left of the level is cut at zero.
  have hat : (E data.buySellIndicator).qtyAt (LawfulBook.key β data.px) =
      max 0 ((D data.buySellIndicator).qtyAt (LawfulBook.key β data.px) - qty) := by
    rw [hred.reduced, Depth.qtyAt_reduceQty (LawfulBook.positive (hD.shows _)) _ _ hq hfitq,
      if_pos rfl]
  have hshow : (cb.takeFrom id data qty c).ShowsOrders data.stock E := by
    apply hD.at_level (s := data.buySellIndicator) (k := LawfulBook.key β data.px)
    · rw [hbook]
      exact hred.shows
    · rw [hbook]
      exact hred.exact_iff
    · intro t j hne
      rw [hlevel, OrderData.levelQty_of_ne { data with qty := qty } fun _ => hne, sub_zero]
      exact ⟨hred.qtyAt_of_ne hne, rfl⟩
    · have hDle := hD.qty_le data.buySellIndicator (LawfulBook.key β data.px)
      rw [hlevel, hself, hat]
      exact max_le (by omega) (by omega)
    · intro hexact
      rw [hlevel, hself, hat, hD.qty_eq _ hexact]
      exact max_eq_right (by omega)
  refine ⟨⟨h.config, fun j other hj => ?_, fun stock => ?_⟩, hshow⟩
  · rw [find?_orders_takeFrom hfind, hrest] at hj
    split_ifs at hj with hj' hzero
    · obtain rfl := Option.some.inj hj
      have hleft : 0 < data.qty - qty := by omega
      have hleftfit : FitsInt (data.qty - qty) := by
        unfold FitsInt at *
        omega
      exact ⟨hleft, hleftfit, hpx, hasBook_takeFrom hhas hhas⟩
    · obtain ⟨hq', hfit', hpx', hbook'⟩ := h.live j other hj
      exact ⟨hq', hfit', hpx', hasBook_takeFrom hhas hbook'⟩
  · rcases eq_or_ne stock data.stock with rfl | hstock
    · exact ⟨E, hshow⟩
    · obtain ⟨D', hD'⟩ := h.books stock
      refine ⟨D', hD'.frame ?_ fun s k => ?_⟩
      · rw [bookOf_takeFrom hhas, if_neg hstock]
      · rw [hlevel, OrderData.levelQty_of_ne { data with qty := qty } fun he => absurd he hstock,
          sub_zero]

/-! ## What handling a message can do -/

/-- The outcomes of handling a message. -/
inductive Outcome (cb : ComputeBook κ β) (recvts : Int) (msg : Message κ) :
    EStateM.Result Failure (ComputeBook κ β) (Option (Callback κ β)) → Prop
  /-- nothing to do, or an order id that is a duplicate or not known -/
  | ignored : Outcome cb recvts msg (.ok none cb)
  /-- a security is listed -/
  | listed (m : StockDirectoryMessage κ) (hmsg : msg = .stockDirectory m) :
      Outcome cb recvts msg
        (.ok none { cb with books := cb.books.emplace m.stock (OrderBook.make cb.cfg) })
  /-- a new order -/
  | added (m : AddOrderMessage κ) (c : OrderBook β) (D E : OrderBook.Depths)
      (hmsg : msg.newOrder? = some m)
      (hid : cb.orders.find? m.orderReferenceNumber = none)
      (hD : cb.ShowsOrders m.stock D)
      (hfit : FitsInt ((D m.buySellIndicator).qtyAt (LawfulBook.key β m.price) + m.shares))
      (hadd : OrderBook.Added (cb.bookOf m.stock) c D E m.buySellIndicator
        (LawfulBook.key β m.price) m.shares) :
      Outcome cb recvts msg
        (.ok (some ⟨m.header, c, BookUpdate.ofLevel recvts m.stock m.buySellIndicator m.price
          m.shares⟩)
          (cb.addTo m.orderReferenceNumber ⟨m.stock, m.buySellIndicator, m.price, m.shares⟩ c))
  /-- shares taken from a live order -/
  | reduced (header : MessageHeader) (id : UInt64) (shares : UInt32) (data : OrderData κ)
      (c : OrderBook β) (D E : OrderBook.Depths)
      (hmsg : msg.reduction? = some (header, id, shares))
      (hfind : cb.orders.find? id = some data)
      (hq : 0 < reducedShares data shares)
      (hD : cb.ShowsOrders data.stock D)
      (hlevel : (D data.buySellIndicator).find? (LawfulBook.key β data.px) ≠ none)
      (hred : OrderBook.Reduced (cb.bookOf data.stock) c D E data.buySellIndicator
        (LawfulBook.key β data.px) (reducedShares data shares)) :
      Outcome cb recvts msg
        (.ok (some ⟨header, c, BookUpdate.ofLevel recvts data.stock data.buySellIndicator data.px
          (-reducedShares data shares)⟩)
          (cb.takeFrom id data (reducedShares data shares) c))
  /-- a live order replaced by a new one -/
  | replaced (m : OrderReplaceMessage) (data : OrderData κ) (b c : OrderBook β)
      (D E F : OrderBook.Depths) (hmsg : msg = .orderReplace m)
      (hfind : cb.orders.find? m.originalOrderReferenceNumber = some data)
      (hnew : cb.orders.find? m.newOrderReferenceNumber = none)
      (hD : cb.ShowsOrders data.stock D)
      (hlevel : (D data.buySellIndicator).find? (LawfulBook.key β data.px) ≠ none)
      (hred : OrderBook.Reduced (cb.bookOf data.stock) b D E data.buySellIndicator
        (LawfulBook.key β data.px) data.qty)
      (hfit : FitsInt ((E data.buySellIndicator).qtyAt (LawfulBook.key β m.price) + m.shares))
      (hadd : OrderBook.Added b c E F data.buySellIndicator (LawfulBook.key β m.price) m.shares) :
      Outcome cb recvts msg
        (.ok (some ⟨m.header, c, recvts, data.stock, data.buySellIndicator, m.price, m.shares, true,
          data.px, data.qty⟩)
          ((cb.takeFrom m.originalOrderReferenceNumber data data.qty b).addTo
            m.newOrderReferenceNumber ⟨data.stock, data.buySellIndicator, m.price, m.shares⟩ c))
  /-- a level that the side did not keep -/
  | failed (id : UInt64) (data : OrderData κ) (qty : Int) (f : FeedError)
      (hfind : cb.orders.find? id = some data) (hq : 0 < qty) (hle : qty ≤ data.qty)
      (hinexact : ¬ LawfulBook.Exact ((cb.bookOf data.stock).side data.buySellIndicator)) :
      Outcome cb recvts msg
        (.error (.feedError f) (cb.takeFrom id data qty (cb.bookOf data.stock)))

/-- In a consistent state the level of a live order is there, if the side keeps all that is added. -/
theorem ShowsOrders.level_of_order (h : cb.Consistent) (hfind : cb.orders.find? id = some data)
    {D : OrderBook.Depths} (hD : cb.ShowsOrders data.stock D)
    (hexact : LawfulBook.Exact ((cb.bookOf data.stock).side data.buySellIndicator)) :
    data.qty ≤ (D data.buySellIndicator).qtyAt (LawfulBook.key β data.px) := by
  rw [hD.qty_eq _ hexact]
  exact qty_le_levelTotal h.qty_pos hfind

/-- There is room for an order in its level when there is in the total of the live orders. -/
theorem ShowsOrders.fits_add {stock : κ} {s : Side} {px : Nat} {D : OrderBook.Depths}
    (hD : cb.ShowsOrders stock D) (hid : cb.orders.find? id = none) (hq : 0 < qty)
    (hfit : TotalsFit β (cb.orders.emplace id ⟨stock, s, px, qty⟩)) :
    FitsInt ((D s).qtyAt (LawfulBook.key β px) + qty) := by
  have hle := hD.qty_le s (LawfulBook.key β px)
  -- The level holds no more than the live orders, and no less than nothing.
  have hnonneg := Depth.qtyAt_nonneg (LawfulBook.positive (hD.shows s)) (LawfulBook.key β px)
  have htotal := hfit stock s (LawfulBook.key β px)
  rw [levelTotal_emplace hid, OrderData.levelQty, if_pos ⟨rfl, rfl, rfl⟩] at htotal
  simp only [FitsInt] at *
  omega

/-- The book that a live order is in. -/
theorem LiveOrder.find?_book (h : cb.LiveOrder data) :
    cb.books.find? data.stock = some (cb.bookOf data.stock) := by
  obtain ⟨b, hb⟩ := Option.ne_none_iff_exists'.1 h.hasBook
  rw [bookOf, hb, Option.getD_some]

section Handlers

variable {recvts : Int} {msg : Message κ}

theorem handleAddOrder_outcome (h : cb.Consistent) {m : AddOrderMessage κ}
    (hmsg : msg.newOrder? = some m) (hq : 0 < m.shares) (hqfit : FitsInt m.shares)
    (hpx : LawfulBook.Accepts β m.price)
    (hfit : TotalsFit β (finalState ((handleAddOrder recvts m).run cb)).orders) :
    Outcome cb recvts msg ((handleAddOrder recvts m).run cb) ∧
      (finalState ((handleAddOrder recvts m).run cb)).Consistent := by
  cases hid : cb.orders.find? m.orderReferenceNumber with
  | some data =>
      rw [handleAddOrder_duplicate (by simp [hid])]
      exact ⟨Outcome.ignored, h⟩
  | none =>
      obtain ⟨D, hD⟩ := h.books m.stock
      -- The order is recorded whether or not its book raises.
      have horders : (finalState ((handleAddOrder recvts m).run cb)).orders =
          cb.orders.emplace m.orderReferenceNumber
            ⟨m.stock, m.buySellIndicator, m.price, m.shares⟩ := by
        rw [handleAddOrder_run hid]
        cases (OrderBook.handleAddOrder m.buySellIndicator m.price m.shares).run
          (cb.bookOf m.stock) <;> rfl
      have htotal := hD.fits_add hid hq (horders ▸ hfit)
      obtain ⟨r, c, E, hrun, hadd⟩ :=
        OrderBook.handleAddOrder_shows hD.shows m.buySellIndicator hpx hq htotal
      rw [handleAddOrder_run hid, hrun]
      exact ⟨Outcome.added m c D E hmsg hid hD htotal hadd,
        (h.addTo _ hid hq hqfit hpx hD htotal hadd).1⟩

theorem int32_neg_of_le {a b : Int} (h0 : 0 < a) (hle : a ≤ b) (hfit : FitsInt b) :
    int32 (-a) = -a := by
  apply int32_of_fits
  unfold FitsInt at *
  omega

/-- A reduction that the book refuses concerns a side that does not keep all that is added. -/
theorem inexact_of_find?_none (h : cb.Consistent) (hfind : cb.orders.find? id = some data)
    {D : OrderBook.Depths} (hD : cb.ShowsOrders data.stock D)
    (hnone : (D data.buySellIndicator).find? (LawfulBook.key β data.px) = none) :
    ¬ LawfulBook.Exact ((cb.bookOf data.stock).side data.buySellIndicator) := by
  intro hexact
  have hle := hD.level_of_order h hfind hexact
  rw [Depth.qtyAt, hnone, Option.getD_none] at hle
  exact absurd (h.qty_pos id data hfind) (not_lt.2 hle)

theorem handleOrderReduction_outcome (h : cb.Consistent) {header : MessageHeader} {shares : UInt32}
    (hmsg : msg.reduction? = some (header, id, shares)) (hshares : shares.toNat < 2147483648) :
    Outcome cb recvts msg ((handleOrderReduction recvts header id shares).run cb) ∧
      (finalState ((handleOrderReduction recvts header id shares).run cb)).Consistent := by
  cases hfind : cb.orders.find? id with
  | none =>
      rw [handleOrderReduction_unknown hfind]
      exact ⟨Outcome.ignored, h⟩
  | some data =>
      have hlive := h.live id data hfind
      have hq := reducedShares_pos hlive.qty_pos hshares
      have hle := reducedShares_le data shares
      have hqfit : FitsInt (reducedShares data shares) := by
        have := hlive.fits
        unfold FitsInt at *
        omega
      obtain ⟨D, hD⟩ := h.books data.stock
      obtain ⟨c, E, hred, hrun⟩ :=
        OrderBook.handleOrderReduced_shows hD.shows data.buySellIndicator hlive.accepts hq hqfit
      have hcons := (h.takeFrom hfind hq hle hD hred).1
      rw [handleOrderReduction_run hfind hlive.find?_book]
      rcases hrun with ⟨hlevel, r, hrun⟩ | ⟨hnone, rfl, f, hrun⟩
      · rw [hrun, int32_neg_of_le hq hle hlive.fits]
        exact ⟨Outcome.reduced header id shares data c D E hmsg hfind hq hD hlevel hred, hcons⟩
      · rw [hrun]
        exact ⟨Outcome.failed id data _ f hfind hq hle (inexact_of_find?_none h hfind hD hnone), hcons⟩

theorem handleOrderReplace_outcome (h : cb.Consistent) {m : OrderReplaceMessage}
    (hmsg : msg = .orderReplace m) (hq : 0 < m.shares) (hqfit : FitsInt m.shares)
    (hpx : LawfulBook.Accepts β m.price)
    (hfit : TotalsFit β (finalState ((handleOrderReplace recvts m).run cb)).orders) :
    Outcome cb recvts msg ((handleOrderReplace recvts m).run cb) ∧
      (finalState ((handleOrderReplace recvts m).run cb)).Consistent := by
  cases hfind : cb.orders.find? m.originalOrderReferenceNumber with
  | none =>
      rw [handleOrderReplace_ignored (.inl hfind)]
      exact ⟨Outcome.ignored, h⟩
  | some data =>
      cases hnew : cb.orders.find? m.newOrderReferenceNumber with
      | some other =>
          rw [handleOrderReplace_ignored (.inr (by simp [hnew]))]
          exact ⟨Outcome.ignored, h⟩
      | none =>
          have hlive := h.live _ data hfind
          obtain ⟨D, hD⟩ := h.books data.stock
          obtain ⟨b, E, hred, hrun⟩ := OrderBook.handleOrderReduced_shows hD.shows
            data.buySellIndicator hlive.accepts hlive.qty_pos hlive.fits
          obtain ⟨hcons, hE⟩ := h.takeFrom hfind hlive.qty_pos le_rfl hD hred
          rw [handleOrderReplace_run hfind hnew hlive.find?_book] at hfit ⊢
          rcases hrun with ⟨hlevel, r, hrun⟩ | ⟨hnone, rfl, f, hrun⟩
          · rw [hrun] at hfit ⊢
            -- the old order is out of its book, and its id is not that of the new one
            have hbook : (cb.takeFrom m.originalOrderReferenceNumber data data.qty b).bookOf
                data.stock = b := by
              rw [bookOf_takeFrom hlive.hasBook, if_pos rfl]
            have hid := find?_new_takeFrom hfind hnew data.qty b
            have hfit' : TotalsFit β ((cb.takeFrom m.originalOrderReferenceNumber data data.qty
                b).orders.emplace m.newOrderReferenceNumber
                  ⟨data.stock, data.buySellIndicator, m.price, m.shares⟩) := by
              revert hfit
              simp only []
              cases (OrderBook.handleAddOrder data.buySellIndicator m.price m.shares).run b <;>
                exact id
            have htotal := hE.fits_add hid hq hfit'
            obtain ⟨r', c, F, hrun', hadd⟩ := OrderBook.handleAddOrder_shows hE.shows
              data.buySellIndicator hpx hq htotal
            rw [hbook] at hrun'
            simp only [hrun', int32_neg_of_le hlive.qty_pos le_rfl hlive.fits, neg_neg,
              int32_of_fits hlive.fits]
            refine ⟨Outcome.replaced m data b c D E F hmsg hfind hnew hD hlevel hred htotal
              (hbook ▸ hadd), ?_⟩
            exact (hcons.addTo ⟨data.stock, data.buySellIndicator, m.price, m.shares⟩ hid hq hqfit hpx
              hE htotal hadd).1
          · rw [hrun]
            -- The book raised, for the level of the order was not there.
            exact ⟨Outcome.failed _ data _ f hfind hlive.qty_pos le_rfl
              (inexact_of_find?_none h hfind hD hnone), hcons⟩

theorem handleStockDirectory_consistent (h : cb.Consistent) (stock : κ) :
    Consistent { cb with books := cb.books.emplace stock (OrderBook.make cb.cfg) } := by
  refine ⟨h.config, fun j data hj => ?_, fun other => ?_⟩
  · obtain ⟨hq, hfit, hpx, hbook⟩ := h.live j data hj
    exact ⟨hq, hfit, hpx, hasBook_emplace stock hbook⟩
  · obtain ⟨D, hD⟩ := h.books other
    exact ⟨D, hD.frame (bookOf_listed cb stock other) fun _ _ => rfl⟩

/-- What handling a message does in a consistent state is one of the outcomes, and leaves the state
consistent. -/
theorem handleMessage_outcome (h : cb.Consistent) (hshares : msg.SharesInRange)
    (hpx : msg.PriceIn (LawfulBook.Accepts β))
    (hfit : TotalsFit β (finalState ((handleMessage recvts msg).run cb)).orders) :
    Outcome cb recvts msg ((handleMessage recvts msg).run cb) ∧
      (finalState ((handleMessage recvts msg).run cb)).Consistent := by
  cases msg with
  | addOrder m => exact handleAddOrder_outcome h rfl hshares.1 hshares.2 hpx hfit
  | addOrderMpid m => exact handleAddOrder_outcome h rfl hshares.1 hshares.2 hpx hfit
  | orderExecuted m => exact handleOrderReduction_outcome h rfl hshares.2
  | orderExecutedPrice m => exact handleOrderReduction_outcome h rfl hshares.2
  | orderCancel m => exact handleOrderReduction_outcome h rfl hshares.2
  | orderDelete m => exact handleOrderReduction_outcome h rfl (by decide)
  | orderReplace m => exact handleOrderReplace_outcome h rfl hshares.1 hshares.2 hpx hfit
  | stockDirectory m => exact ⟨Outcome.listed m rfl, handleStockDirectory_consistent h m.stock⟩
  | other header => exact ⟨Outcome.ignored, h⟩

end Handlers

/-! ## Runs -/

/-- A message that the books handle: share counts in range, a price of the book type, and totals that
still fit in an `int` afterwards. -/
def Admissible (cb : ComputeBook κ β) (i : Int × Message κ) : Prop :=
  i.2.SharesInRange ∧ i.2.PriceIn (LawfulBook.Accepts β) ∧
    TotalsFit β ((machine κ β).step cb i).2.orders

theorem Admissible.outcome {i : Int × Message κ} (hi : cb.Admissible i) (h : cb.Consistent) :
    Outcome cb i.1 i.2 ((handleMessage i.1 i.2).run cb) ∧
      ((machine κ β).step cb i).2.Consistent := by
  obtain ⟨hshares, hpx, hfit⟩ := hi
  rw [machine_step_state] at hfit ⊢
  exact handleMessage_outcome h hshares hpx hfit

theorem consistent_run {hashValue : κ → UInt64} {cfg : BookType.Config β}
    (hcfg : LawfulBook.ValidConfig cfg) {msgs : List (Int × Message κ)}
    (hmsgs : (machine κ β).Along Admissible (make hashValue cfg) msgs) :
    ((machine κ β).run (make hashValue cfg) msgs).2.Consistent :=
  Machine.run_invariant (fun _ _ h hi => (hi.outcome h).2) hmsgs (consistent_make hashValue hcfg)

end Lawful

/-! ## The map-based books -/

/-- The shares of the live orders of a security at one side and price. -/
def liveShares (cb : ComputeBook κ β) (stock : κ) (s : Side) (px : Nat) : Int :=
  cb.orders.total fun _ data =>
    if data.stock = stock ∧ data.buySellIndicator = s ∧ data.px = px then data.qty else 0

/-- The shares at each side and price of each security fit in an `int`. -/
def LiveSharesFit (cb : ComputeBook κ β) : Prop :=
  ∀ stock s px, FitsInt (cb.liveShares stock s px)

/-- The map-based books handle messages whose share counts are in range, as long as the shares at each
side and price fit. -/
theorem along_admissible (hashValue : κ → UInt64) {msgs : List (Int × Message κ)}
    (hshares : ∀ i ∈ msgs, i.2.SharesInRange)
    (hfit : (machine κ MapBasedBookSide).Along
      (fun cb i => ((machine κ MapBasedBookSide).step cb i).2.LiveSharesFit)
      (make hashValue ()) msgs) :
    (machine κ MapBasedBookSide).Along Admissible (make hashValue ()) msgs := by
  have hvalid := Machine.along_of_forall (machine κ MapBasedBookSide)
    (P := fun _ i => i.2.SharesInRange) (fun i hi _ => hshares i hi) (make hashValue ())
  refine (hvalid.and hfit).imp fun cb i hi => ⟨hi.1, ?_, hi.2⟩
  cases i.2 <;> trivial

/-- After any sequence of messages, each live order has shares left and a book to be in, and the books
hold, at each side and price, the shares of the live orders there and no other level. A message leaves
the books of every security alone that it is not about. -/
theorem levels_eq_live_orders (hashValue : κ → UInt64) (msgs : List (Int × Message κ))
    (hshares : ∀ i ∈ msgs, i.2.SharesInRange)
    (hfit : (machine κ MapBasedBookSide).Along
      (fun cb i => ((machine κ MapBasedBookSide).step cb i).2.LiveSharesFit)
      (make hashValue ()) msgs) :
    let cb := ((machine κ MapBasedBookSide).run (make hashValue ()) msgs).2
    (∀ id data, cb.orders.find? id = some data →
      0 < data.qty ∧ ∃ book, cb.books.find? data.stock = some book) ∧
    (∀ stock book s px, cb.books.find? stock = some book →
      (book.side s).levels.find? px =
        if cb.liveShares stock s px = 0 then none else some (cb.liveShares stock s px)) ∧
    ∀ i stock, cb.namedStock i.2 ≠ some stock →
      ((machine κ MapBasedBookSide).step cb i).2.books.find? stock = cb.books.find? stock := by
  have hadm := along_admissible hashValue hshares hfit
  intro cb
  have hcons : cb.Consistent := consistent_run trivial hadm
  refine ⟨fun id data hfind => ?_, fun stock book s px hbook => ?_, fun i stock hne => ?_⟩
  · have hlive := hcons.live id data hfind
    exact ⟨hlive.qty_pos, _, hlive.find?_book⟩
  · obtain ⟨D, hD⟩ := hcons.books stock
    have hof : cb.bookOf stock = book := by
      rw [bookOf, hbook, Option.getD_some]
    -- A map-based side holds what is added, so its levels are the totals of the live orders.
    obtain ⟨hlevels, hpos⟩ := hD.shows s
    have htotal : (D s).qtyAt px = cb.liveShares stock s px := hD.qty_eq s trivial px
    rw [← hof, hlevels, ← htotal]
    split_ifs with hzero
    · exact (Depth.qtyAt_eq_zero_iff hpos).1 hzero
    · have hnonneg := Depth.qtyAt_nonneg hpos px
      exact Depth.find?_eq_of_qtyAt_pos (by omega)
  · rw [machine_step_state]
    exact handleMessage_frame cb i.2 hne

/-- An order of 100 shares with 40 of them executed. -/
theorem levels_eq_live_orders_partial_fill :
    (((machine Nat MapBasedBookSide).run (make UInt64.ofNat ())
        [(0, .addOrder ⟨⟨65, 7, 0, 1⟩, 1, .buy, 100, 7, 100000⟩),
          (1, .orderExecuted ⟨⟨69, 7, 0, 2⟩, 1, 40⟩)]).2.books.find? 7).map
      (fun book => book.buy.levels.find? 100000) = some (some 60) := by
  have h := levels_eq_live_orders UInt64.ofNat
    [(0, .addOrder ⟨⟨65, 7, 0, 1⟩, 1, .buy, 100, 7, 100000⟩),
      (1, .orderExecuted ⟨⟨69, 7, 0, 2⟩, 1, 40⟩)]
    (by simp [Message.SharesInRange, FitsInt]) ?_
  · obtain ⟨hlive, hlevels, -⟩ := h
    obtain ⟨book, hbook⟩ := (hlive 1 ⟨7, .buy, 100000, 60⟩ rfl).2
    have hlevel := hlevels 7 book .buy 100000 hbook
    rw [hbook, Option.map_some]
    exact congrArg some hlevel
  · refine ⟨fun stock s px => ?_, fun stock s px => ?_, trivial⟩
    · show FitsInt ((if 7 = stock ∧ Side.buy = s ∧ 100000 = px then 100 else 0) + 0)
      split_ifs <;> decide
    · show FitsInt ((if 7 = stock ∧ Side.buy = s ∧ 100000 = px then 60 else 0) + 0)
      split_ifs <;> decide

end ComputeBook

end JayBeams.Itch5
