import JayBeams.Itch5.BookEquivalence
import JayBeams.Itch5.ComputeBookInvariant

/-!
# The array-based books simulate the map-based books

`compute_book` is a template over the type of the books. Fed with the same messages, the one over
`array_based_order_book` and the one over `map_based_order_book` keep the same orders, the same
securities, and for each security two books that show one depth at each side (`SameBooks`). Each
message has the same answer in both (`array_books_simulate_map_books`), so that a callback which asks
nothing but the observers of a book cannot tell them apart.

The simulation asks of a message what a side asks of its operations: prices in the range of the levels
and on the tick, and quantities that fit in an `int`.
-/

set_option autoImplicit false

namespace JayBeams.Itch5

open Containers Machines Machines.Machine

/-- A price that both types of sides quote as it is. -/
def QuotedPrice (px : Nat) : Prop := 0 < px ∧ px < maxPriceFieldValue price4 ∧ TickAligned px

instance (px : Nat) : Decidable (QuotedPrice px) := inferInstanceAs (Decidable (_ ∧ _))

/-! ## Two sides -/

theorem sameDepth_make {cfg : ArrayBasedConfig} (hcfg : 2 ≤ cfg.maxSize) (s : Side) :
    SameDepth (ArrayBasedBookSide.make cfg s) (MapBasedBookSide.make () s) := by
  have hvalid : cfg.validate = true := by
    simp only [ArrayBasedConfig.validate]
    simp
    omega
  refine ⟨OrderedMap.empty, ArrayBasedBookSide.represents_make cfg hvalid, ?_, rfl⟩
  show cfg.maxSize.toNat ≠ 1
  omega

namespace SameDepth

variable {s : Side} {b : ArrayBasedBookSide s} {m n : MapBasedBookSide s} {r : Bool}

theorem run_ok (h : SameDepth b m) (op : BookOp) (hop : op.Valid) (hfit : TotalFits m op)
    (hrun : (BookOp.action op).run m = .ok r n) :
    ∃ c, (BookOp.action op).run b = .ok r c ∧ SameDepth c n := by
  obtain ⟨⟨hresult, -⟩, hsame⟩ := step_agrees h hop hfit
  have hstep : (sideMachine MapBasedBookSide s).step m op = (.ok r, n) :=
    Machine.ofAction_step_ok hrun
  cases hb : (BookOp.action op).run b with
  | ok r' c =>
      have hstep' : (sideMachine ArrayBasedBookSide s).step b op = (.ok r', c) :=
        Machine.ofAction_step_ok hb
      simp only [tracedSide, hstep, hstep'] at hresult hsame
      rcases hresult with ⟨r'', hr', hr⟩ | ⟨⟨e, he⟩, -⟩
      · obtain rfl := Except.ok.inj hr
        obtain rfl := Except.ok.inj hr'
        exact ⟨c, rfl, hsame⟩
      · cases he
  | error e c =>
      have hstep' : (sideMachine ArrayBasedBookSide s).step b op = (.error e, c) :=
        Machine.ofAction_step_error hb
      simp only [tracedSide, hstep, hstep'] at hresult
      rcases hresult with ⟨r'', hr', -⟩ | ⟨-, ⟨f, hf⟩, -⟩
      · cases hr'
      · cases hf

end SameDepth

/-! ## Two books -/

/-- What the observers say of a book. -/
structure BookView where
  bestBid : Except Failure HalfQuote
  worstBid : Except Failure HalfQuote
  bestOffer : Except Failure HalfQuote
  worstOffer : Except Failure HalfQuote
  depth : Except Failure Nat

namespace OrderBook

def view {β : Side → Type} [BookType β] (b : OrderBook β) : BookView :=
  ⟨b.bestBid, b.worstBid, b.bestOffer, b.worstOffer, b.getBookDepth⟩

/-- The two books show one depth at each side. -/
def SameDepths (b : OrderBook ArrayBasedBookSide) (m : OrderBook MapBasedBookSide) : Prop :=
  ∀ s, SameDepth (b.side s) (m.side s)

namespace SameDepths

variable {b : OrderBook ArrayBasedBookSide} {m : OrderBook MapBasedBookSide} {s : Side} {px : Nat}
  {qty : Int}

/-- Nothing that can be observed tells the two books apart. -/
theorem view_eq (h : b.SameDepths m) : b.view = m.view := by
  have hbuy : Itch5.view b.buy = Itch5.view m.buy := (h .buy).view_eq
  have hsell : Itch5.view b.sell = Itch5.view m.sell := (h .sell).view_eq
  have hdepth : b.getBookDepth = m.getBookDepth := by
    rw [getBookDepth, getBookDepth, show BookType.count b.buy = _ from congrArg SideView.count hbuy,
      show BookType.count b.sell = _ from congrArg SideView.count hsell]
    rfl
  exact congr (congr (congr (congr (congrArg BookView.mk (congrArg SideView.best hbuy))
    (congrArg SideView.worst hbuy)) (congrArg SideView.best hsell))
    (congrArg SideView.worst hsell)) hdepth

theorem setSide (h : b.SameDepths m) {c : ArrayBasedBookSide s} {n : MapBasedBookSide s}
    (hc : SameDepth c n) : (b.setSide s c).SameDepths (m.setSide s n) := by
  intro t
  rcases eq_or_ne t s with rfl | hts
  · rw [side_setSide_self, side_setSide_self]
    exact hc
  · rw [side_setSide_of_ne b hts, side_setSide_of_ne m hts]
    exact h t

/-- An order added to both books. -/
theorem handleAddOrder (h : b.SameDepths m) (s : Side) (hpx : QuotedPrice px) (hq : 0 < qty)
    (hqfit : FitsInt qty) (hfit : FitsInt ((m.side s).levels.qtyAt px + qty)) :
    ∃ r c n, (OrderBook.handleAddOrder s px qty).run b = .ok r c ∧
      (OrderBook.handleAddOrder s px qty).run m = .ok r n ∧ c.SameDepths n := by
  have hrun := MapBasedBookSide.addOrder_run px qty (m.side s)
  obtain ⟨c, hc, hsame⟩ := (h s).run_ok (.add px qty) ⟨hq, hqfit, hpx⟩ hfit hrun
  exact ⟨_, _, _, handleAddOrder_ok hc, handleAddOrder_ok hrun, h.setSide hsame⟩

/-- A quantity taken from a level of both books. -/
theorem handleOrderReduced (h : b.SameDepths m) (s : Side) (hpx : QuotedPrice px) (hq : 0 < qty)
    (hqfit : FitsInt qty) (hpresent : (m.side s).levels.find? px ≠ none) :
    ∃ r c n, (OrderBook.handleOrderReduced s px qty).run b = .ok r c ∧
      (OrderBook.handleOrderReduced s px qty).run m = .ok r n ∧ c.SameDepths n := by
  have hrun : (MapBasedBookSide.reduceOrder px qty).run (m.side s) = _ :=
    MapBasedBookSide.reduceOrder_run_some hpresent
  obtain ⟨c, hc, hsame⟩ := (h s).run_ok (.reduce px qty) ⟨hq, hqfit, hpx⟩ trivial hrun
  exact ⟨_, _, _, handleOrderReduced_ok hc, handleOrderReduced_ok hrun, h.setSide hsame⟩

end SameDepths

end OrderBook

/-! ## Two states of the books -/

namespace ComputeBook

section Symbols

variable {κ : Type} [DecidableEq κ] {β : Side → Type} [BookType β]

theorem symbols_addTo (cb : ComputeBook κ β) (id : UInt64) (data : OrderData κ) (c : OrderBook β) :
    (cb.addTo id data c).symbols = (cb.books.emplace data.stock (OrderBook.make cb.cfg)).keys :=
  UnorderedMap.keys_modify _ _ _

theorem symbols_takeFrom (cb : ComputeBook κ β) (id : UInt64) (data : OrderData κ) (qty : Int)
    (c : OrderBook β) : (cb.takeFrom id data qty c).symbols = cb.symbols :=
  UnorderedMap.keys_modify _ _ _

end Symbols

variable {κ : Type} [DecidableEq κ] {ca : ComputeBook κ ArrayBasedBookSide}
  {cm : ComputeBook κ MapBasedBookSide} {id : UInt64} {data : OrderData κ} {qty : Int}
  {c : OrderBook ArrayBasedBookSide} {n : OrderBook MapBasedBookSide}

/-- The two states keep the same orders, all on the tick, and the same securities, with books that
show one depth at each side. -/
structure SameBooks (ca : ComputeBook κ ArrayBasedBookSide) (cm : ComputeBook κ MapBasedBookSide) :
    Prop where
  orders : ca.orders = cm.orders
  symbols : ca.symbols = cm.symbols
  books : ∀ stock, (ca.bookOf stock).SameDepths (cm.bookOf stock)
  quoted : ∀ id data, cm.orders.find? id = some data → QuotedPrice data.px

namespace SameBooks

theorem hasBook (h : SameBooks ca cm) {stock : κ} (hbook : cm.books.find? stock ≠ none) :
    ca.books.find? stock ≠ none := by
  intro hnone
  rw [UnorderedMap.find?_eq_none_iff_keys] at hnone
  refine hbook (UnorderedMap.find?_eq_none_iff_keys.2 ?_)
  rw [← show ca.books.keys = cm.books.keys from h.symbols]
  exact hnone

/-- The array-based book of a security that has a map-based one. -/
theorem find?_book (h : SameBooks ca cm) {stock : κ} (hbook : cm.books.find? stock ≠ none) :
    ca.books.find? stock = some (ca.bookOf stock) := by
  obtain ⟨b, hb⟩ := Option.ne_none_iff_exists'.1 (h.hasBook hbook)
  rw [bookOf, hb, Option.getD_some]

theorem addTo (h : SameBooks ca cm) (data : OrderData κ) (hpx : QuotedPrice data.px)
    (hc : c.SameDepths n) : SameBooks (ca.addTo id data c) (cm.addTo id data n) where
  orders := by rw [ComputeBook.addTo, h.orders, ComputeBook.addTo]
  symbols := by
    rw [symbols_addTo, symbols_addTo]
    exact UnorderedMap.keys_emplace_congr h.symbols _ _ _
  books stock := by
    rw [bookOf_addTo, bookOf_addTo]
    split_ifs
    · exact hc
    · exact h.books stock
  quoted j other hj := by
    have hfind : (cm.addTo id data n).orders.find? j = _ :=
      UnorderedMap.find?_emplace cm.orders id j data
    rw [hfind] at hj
    split_ifs at hj
    · cases hid : cm.orders.find? id with
      | none =>
          rw [hid, Option.getD_none] at hj
          exact Option.some.inj hj ▸ hpx
      | some old =>
          rw [hid, Option.getD_some] at hj
          exact Option.some.inj hj ▸ h.quoted id old hid
    · exact h.quoted j other hj

theorem takeFrom (h : SameBooks ca cm) (hfind : cm.orders.find? id = some data)
    (hhas : cm.books.find? data.stock ≠ none) (qty : Int) (hc : c.SameDepths n) :
    SameBooks (ca.takeFrom id data qty c) (cm.takeFrom id data qty n) where
  orders := by rw [ComputeBook.takeFrom, h.orders, ComputeBook.takeFrom]
  symbols := by
    rw [symbols_takeFrom, symbols_takeFrom]
    exact h.symbols
  books stock := by
    rw [bookOf_takeFrom (h.hasBook hhas), bookOf_takeFrom hhas]
    split_ifs
    · exact hc
    · exact h.books stock
  quoted j other hj := by
    rw [find?_orders_takeFrom hfind] at hj
    split_ifs at hj
    · exact Option.some.inj hj ▸ h.quoted id data hfind
    · exact h.quoted j other hj

theorem listed (h : SameBooks ca cm) (stock : κ) :
    SameBooks { ca with books := ca.books.emplace stock (OrderBook.make ca.cfg) }
      { cm with books := cm.books.emplace stock (OrderBook.make cm.cfg) } where
  orders := h.orders
  symbols := UnorderedMap.keys_emplace_congr h.symbols _ _ _
  books other := by
    rw [bookOf_listed ca stock other, bookOf_listed cm stock other]
    exact h.books other
  quoted := h.quoted

end SameBooks

/-! ## One message -/

/-- The answers to one message: none in both, or a callback in both, with the same header, the same
update and books that look the same. -/
inductive SameAnswer : Except Failure (Option (Callback κ ArrayBasedBookSide)) →
    Except Failure (Option (Callback κ MapBasedBookSide)) → Prop
  | none : SameAnswer (.ok none) (.ok none)
  | callback (header : MessageHeader) (update : BookUpdate κ) (b : OrderBook ArrayBasedBookSide)
      (m : OrderBook MapBasedBookSide) (hview : b.view = m.view) :
      SameAnswer (.ok (some ⟨header, b, update⟩)) (.ok (some ⟨header, m, update⟩))

/-- Both handlers return, with the same answer, and the states still agree. -/
def SameOutcome (ra : EStateM.Result Failure (ComputeBook κ ArrayBasedBookSide)
      (Option (Callback κ ArrayBasedBookSide)))
    (rm : EStateM.Result Failure (ComputeBook κ MapBasedBookSide)
      (Option (Callback κ MapBasedBookSide))) : Prop :=
  ∃ oa ca om cm, ra = .ok oa ca ∧ rm = .ok om cm ∧ SameAnswer (.ok oa) (.ok om) ∧ SameBooks ca cm

section Handlers

variable {recvts : Int} {msg : Message κ}

theorem SameBooks.ignored (h : SameBooks ca cm) : SameOutcome (.ok none ca) (.ok none cm) :=
  ⟨none, ca, none, cm, rfl, rfl, .none, h⟩

theorem SameBooks.callback (h : SameBooks ca cm) (header : MessageHeader) (update : BookUpdate κ)
    (hc : c.SameDepths n) :
    SameOutcome (.ok (some ⟨header, c, update⟩) ca) (.ok (some ⟨header, n, update⟩) cm) :=
  ⟨_, ca, _, cm, rfl, rfl, .callback header update c n hc.view_eq, h⟩

/-- The level that a live order of the map-based books is in. -/
theorem Consistent.level_of_order (h : cm.Consistent) (hfind : cm.orders.find? id = some data) :
    ((cm.bookOf data.stock).side data.buySellIndicator).levels.find? data.px ≠ none := by
  obtain ⟨D, hD⟩ := h.books data.stock
  obtain ⟨hlevels, -⟩ := hD.shows data.buySellIndicator
  have hle := hD.level_of_order h hfind trivial
  have hq := h.qty_pos id data hfind
  have hlevel : (D data.buySellIndicator).find? data.px = some _ :=
    Depth.find?_eq_of_qtyAt_pos (lt_of_lt_of_le hq hle)
  rw [hlevels, hlevel]
  exact Option.some_ne_none _

theorem handleAddOrder_same (h : SameBooks ca cm) (hcons : cm.Consistent) {m : AddOrderMessage κ}
    (hq : 0 < m.shares) (hqfit : FitsInt m.shares) (hpx : QuotedPrice m.price)
    (hfit : TotalsFit MapBasedBookSide (finalState ((handleAddOrder recvts m).run cm)).orders) :
    SameOutcome ((handleAddOrder recvts m).run ca) ((handleAddOrder recvts m).run cm) := by
  cases hid : cm.orders.find? m.orderReferenceNumber with
  | some data =>
      rw [handleAddOrder_duplicate (by rw [h.orders, hid]; simp),
        handleAddOrder_duplicate (by rw [hid]; simp)]
      exact h.ignored
  | none =>
      obtain ⟨D, hD⟩ := hcons.books m.stock
      obtain ⟨hlevels, -⟩ := hD.shows m.buySellIndicator
      have horders : (finalState ((handleAddOrder recvts m).run cm)).orders =
          cm.orders.emplace m.orderReferenceNumber
            ⟨m.stock, m.buySellIndicator, m.price, m.shares⟩ := by
        rw [handleAddOrder_run hid]
        cases (OrderBook.handleAddOrder m.buySellIndicator m.price m.shares).run
          (cm.bookOf m.stock) <;> rfl
      have htotal := hD.fits_add hid hq (horders ▸ hfit)
      obtain ⟨r, c, n, hc, hn, hsame⟩ := (h.books m.stock).handleAddOrder m.buySellIndicator hpx hq
        hqfit (by rw [hlevels]; exact htotal)
      rw [handleAddOrder_run (by rw [h.orders, hid]), hc, handleAddOrder_run hid, hn]
      exact (h.addTo ⟨m.stock, m.buySellIndicator, m.price, m.shares⟩ hpx hsame).callback
        _ _ hsame

theorem handleOrderReduction_same (h : SameBooks ca cm) (hcons : cm.Consistent)
    {header : MessageHeader} {shares : UInt32} (hshares : shares.toNat < 2147483648) :
    SameOutcome ((handleOrderReduction recvts header id shares).run ca)
      ((handleOrderReduction recvts header id shares).run cm) := by
  cases hfind : cm.orders.find? id with
  | none =>
      rw [handleOrderReduction_unknown (by rw [h.orders, hfind]), handleOrderReduction_unknown hfind]
      exact h.ignored
  | some data =>
      have hlive := hcons.live id data hfind
      have hq := reducedShares_pos hlive.qty_pos hshares
      have hqfit : FitsInt (reducedShares data shares) := by
        have hle := reducedShares_le data shares
        have := hlive.fits
        unfold FitsInt at *
        omega
      obtain ⟨r, c, n, hc, hn, hsame⟩ := (h.books data.stock).handleOrderReduced
        data.buySellIndicator (h.quoted id data hfind) hq hqfit (hcons.level_of_order hfind)
      rw [handleOrderReduction_run (by rw [h.orders, hfind]) (h.find?_book hlive.hasBook), hc,
        handleOrderReduction_run hfind hlive.find?_book, hn]
      exact (h.takeFrom hfind hlive.hasBook _ hsame).callback _ _ hsame

theorem handleOrderReplace_same (h : SameBooks ca cm) (hcons : cm.Consistent)
    {m : OrderReplaceMessage} (hq : 0 < m.shares) (hqfit : FitsInt m.shares) (hpx : QuotedPrice m.price)
    (hfit : TotalsFit MapBasedBookSide (finalState ((handleOrderReplace recvts m).run cm)).orders) :
    SameOutcome ((handleOrderReplace recvts m).run ca) ((handleOrderReplace recvts m).run cm) := by
  cases hfind : cm.orders.find? m.originalOrderReferenceNumber with
  | none =>
      rw [handleOrderReplace_ignored (.inl (by rw [h.orders, hfind])),
        handleOrderReplace_ignored (.inl hfind)]
      exact h.ignored
  | some data =>
      cases hnew : cm.orders.find? m.newOrderReferenceNumber with
      | some other =>
          rw [handleOrderReplace_ignored (.inr (by rw [h.orders, hnew]; simp)),
            handleOrderReplace_ignored (.inr (by rw [hnew]; simp))]
          exact h.ignored
      | none =>
          have hlive := hcons.live _ data hfind
          obtain ⟨D, hD⟩ := hcons.books data.stock
          -- first the old order is taken from both books
          obtain ⟨r, c, n, hc, hn, hsame⟩ := (h.books data.stock).handleOrderReduced
            data.buySellIndicator (h.quoted _ data hfind) hlive.qty_pos hlive.fits
            (hcons.level_of_order hfind)
          have hmid := h.takeFrom hfind hlive.hasBook data.qty hsame
          obtain ⟨b, E, hred, hb⟩ := OrderBook.handleOrderReduced_shows hD.shows
            data.buySellIndicator hlive.accepts hlive.qty_pos hlive.fits
          obtain rfl : n = b := by
            rcases hb with ⟨-, r', hb⟩ | ⟨-, -, f, hb⟩
            · rw [hn] at hb
              cases hb
              rfl
            · rw [hn] at hb
              cases hb
          have hE := (hcons.takeFrom hfind hlive.qty_pos le_rfl hD hred).2
          have hbook : (cm.takeFrom m.originalOrderReferenceNumber data data.qty n).bookOf
              data.stock = n := by
            rw [bookOf_takeFrom hlive.hasBook, if_pos rfl]
          obtain ⟨hlevels, -⟩ := hE.shows data.buySellIndicator
          rw [hbook] at hlevels
          -- then the new one is added to both, and there is room for it
          rw [handleOrderReplace_run hfind hnew hlive.find?_book, hn] at hfit ⊢
          have hfit' : TotalsFit MapBasedBookSide ((cm.takeFrom m.originalOrderReferenceNumber data
              data.qty n).orders.emplace m.newOrderReferenceNumber
                ⟨data.stock, data.buySellIndicator, m.price, m.shares⟩) := by
            revert hfit
            simp only []
            cases (OrderBook.handleAddOrder data.buySellIndicator m.price m.shares).run n <;>
              exact id
          have htotal := hE.fits_add (find?_new_takeFrom hfind hnew data.qty n) hq hfit'
          obtain ⟨r', c', n', hc', hn', hsame'⟩ := hsame.handleAddOrder data.buySellIndicator hpx hq
            hqfit (by rw [hlevels]; exact htotal)
          rw [handleOrderReplace_run (by rw [h.orders, hfind]) (by rw [h.orders, hnew])
            (h.find?_book hlive.hasBook), hc]
          simp only [hc', hn']
          exact (hmid.addTo ⟨data.stock, data.buySellIndicator, m.price, m.shares⟩ hpx
            hsame').callback _ _ hsame'

/-- The condition on a message under which the two types of books answer alike. -/
def Tradable (cm : ComputeBook κ MapBasedBookSide) (i : Int × Message κ) : Prop :=
  i.2.SharesInRange ∧ i.2.PriceIn QuotedPrice ∧ ((machine κ MapBasedBookSide).step cm i).2.LiveSharesFit

theorem Tradable.admissible {i : Int × Message κ} (hi : cm.Tradable i) : cm.Admissible i := by
  refine ⟨hi.1, ?_, hi.2.2⟩
  cases i.2 <;> trivial

theorem handleMessage_same (h : SameBooks ca cm) (hcons : cm.Consistent) {i : Int × Message κ}
    (hi : cm.Tradable i) :
    SameOutcome ((handleMessage i.1 i.2).run ca) ((handleMessage i.1 i.2).run cm) := by
  obtain ⟨recvts, msg⟩ := i
  obtain ⟨hshares, hpx, hfit⟩ := hi
  rw [machine_step_state] at hfit
  cases msg with
  | addOrder m => exact handleAddOrder_same h hcons hshares.1 hshares.2 hpx hfit
  | addOrderMpid m => exact handleAddOrder_same h hcons hshares.1 hshares.2 hpx hfit
  | orderExecuted m => exact handleOrderReduction_same h hcons hshares.2
  | orderExecutedPrice m => exact handleOrderReduction_same h hcons hshares.2
  | orderCancel m => exact handleOrderReduction_same h hcons hshares.2
  | orderDelete m => exact handleOrderReduction_same h hcons (by decide)
  | orderReplace m => exact handleOrderReplace_same h hcons hshares.1 hshares.2 hpx hfit
  | stockDirectory m => exact ⟨none, _, none, _, rfl, rfl, .none, h.listed m.stock⟩
  | other header => exact h.ignored

end Handlers

/-! ## Runs -/

theorem sameBooks_make (hashValue : κ → UInt64) {cfg : ArrayBasedConfig} (hcfg : 2 ≤ cfg.maxSize) :
    SameBooks (make hashValue cfg : ComputeBook κ ArrayBasedBookSide)
      (make hashValue () : ComputeBook κ MapBasedBookSide) where
  orders := rfl
  symbols := rfl
  books stock := by
    intro s
    cases s with
    | buy => exact sameDepth_make hcfg .buy
    | sell => exact sameDepth_make hcfg .sell
  quoted id data hfind := by simp [make] at hfind

theorem step_same (h : SameBooks ca cm ∧ cm.Consistent) {i : Int × Message κ} (hi : cm.Tradable i) :
    SameAnswer ((machine κ ArrayBasedBookSide).step ca i).1
        ((machine κ MapBasedBookSide).step cm i).1 ∧
      SameBooks ((machine κ ArrayBasedBookSide).step ca i).2
        ((machine κ MapBasedBookSide).step cm i).2 ∧
      ((machine κ MapBasedBookSide).step cm i).2.Consistent := by
  obtain ⟨hsame, hcons⟩ := h
  obtain ⟨oa, ca', om, cm', hra, hrm, hanswer, hsame'⟩ := handleMessage_same hsame hcons hi
  have hcons' := (hi.admissible.outcome hcons).2
  have ha : (machine κ ArrayBasedBookSide).step ca i = (.ok oa, ca') := Machine.ofAction_step_ok hra
  have hm : (machine κ MapBasedBookSide).step cm i = (.ok om, cm') := Machine.ofAction_step_ok hrm
  rw [hm] at hcons'
  rw [ha, hm]
  exact ⟨hanswer, hsame', hcons'⟩

theorem run_same {hashValue : κ → UInt64} {cfg : ArrayBasedConfig} (hcfg : 2 ≤ cfg.maxSize)
    {msgs : List (Int × Message κ)}
    (hmsgs : (machine κ MapBasedBookSide).Along Tradable (make hashValue ()) msgs) :
    List.Forall₂ SameAnswer ((machine κ ArrayBasedBookSide).run (make hashValue cfg) msgs).1
        ((machine κ MapBasedBookSide).run (make hashValue ()) msgs).1 ∧
      SameBooks ((machine κ ArrayBasedBookSide).run (make hashValue cfg) msgs).2
        ((machine κ MapBasedBookSide).run (make hashValue ()) msgs).2 := by
  have hcons : (make hashValue () : ComputeBook κ MapBasedBookSide).Consistent :=
    consistent_make hashValue trivial
  have hinit := And.intro (sameBooks_make hashValue hcfg) hcons
  obtain ⟨hanswers, hend⟩ := Machine.run_simulation (fun ca cm i h hi => step_same h hi) hmsgs hinit
  exact ⟨hanswers, hend.1⟩

theorem along_tradable {hashValue : κ → UInt64} {msgs : List (Int × Message κ)}
    (hshares : ∀ i ∈ msgs, i.2.SharesInRange) (hprices : ∀ i ∈ msgs, i.2.PriceIn QuotedPrice)
    (hfit : (machine κ MapBasedBookSide).Along
      (fun cm i => ((machine κ MapBasedBookSide).step cm i).2.LiveSharesFit)
      (make hashValue ()) msgs) :
    (machine κ MapBasedBookSide).Along Tradable (make hashValue ()) msgs := by
  have hvalid := Machine.along_of_forall (machine κ MapBasedBookSide)
    (P := fun _ i => i.2.SharesInRange ∧ i.2.PriceIn QuotedPrice)
    (fun i hi _ => ⟨hshares i hi, hprices i hi⟩) (make hashValue ())
  exact (hvalid.and hfit).imp fun cm i hi => ⟨hi.1.1, hi.1.2, hi.2⟩

/-- Books over array-based sides with room for two levels or more answer every message as the books
over map-based sides do, and never raise; afterwards they are for the same securities and look the
same. -/
theorem array_books_simulate_map_books (hashValue : κ → UInt64) (cfg : ArrayBasedConfig)
    (hcfg : 2 ≤ cfg.maxSize) (msgs : List (Int × Message κ))
    (hshares : ∀ i ∈ msgs, i.2.SharesInRange) (hprices : ∀ i ∈ msgs, i.2.PriceIn QuotedPrice)
    (hfit : (machine κ MapBasedBookSide).Along
      (fun cm i => ((machine κ MapBasedBookSide).step cm i).2.LiveSharesFit)
      (make hashValue ()) msgs) :
    let ra := (machine κ ArrayBasedBookSide).run (make hashValue cfg) msgs
    let rm := (machine κ MapBasedBookSide).run (make hashValue ()) msgs
    List.Forall₂ SameAnswer ra.1 rm.1 ∧ ra.2.symbols = rm.2.symbols ∧
      ∀ stock, (ra.2.books.find? stock).map OrderBook.view =
        (rm.2.books.find? stock).map OrderBook.view := by
  obtain ⟨hanswers, hend⟩ := run_same hcfg (along_tradable hshares hprices hfit)
  refine ⟨hanswers, hend.symbols, fun stock => ?_⟩
  have hview := (hend.books stock).view_eq
  cases hm : ((machine κ MapBasedBookSide).run (make hashValue ()) msgs).2.books.find? stock with
  | none =>
      have hkeys : ((machine κ ArrayBasedBookSide).run (make hashValue cfg) msgs).2.books.keys =
        ((machine κ MapBasedBookSide).run (make hashValue ()) msgs).2.books.keys := hend.symbols
      rw [UnorderedMap.find?_eq_none_iff_keys, ← hkeys,
        ← UnorderedMap.find?_eq_none_iff_keys] at hm
      rw [hm]
      rfl
  | some book =>
      have hbook : ((machine κ MapBasedBookSide).run (make hashValue ()) msgs).2.bookOf stock =
          book := by
        rw [bookOf, hm, Option.getD_some]
      rw [hend.find?_book (by rw [hm]; simp), Option.map_some, hview, hbook, Option.map_some]

/-- A bid, replaced by one at a better price, of which a part is executed. -/
theorem array_books_simulate_map_books_replace :
    List.Forall₂ SameAnswer
      ((machine Nat ArrayBasedBookSide).run (make UInt64.ofNat ⟨2⟩)
        [(0, .addOrder ⟨⟨65, 7, 0, 1⟩, 1, .buy, 100, 7, 100000⟩),
          (1, .orderReplace ⟨⟨85, 7, 0, 2⟩, 1, 2, 50, 110000⟩),
          (2, .orderExecuted ⟨⟨69, 7, 0, 3⟩, 2, 40⟩)]).1
      ((machine Nat MapBasedBookSide).run (make UInt64.ofNat ())
        [(0, .addOrder ⟨⟨65, 7, 0, 1⟩, 1, .buy, 100, 7, 100000⟩),
          (1, .orderReplace ⟨⟨85, 7, 0, 2⟩, 1, 2, 50, 110000⟩),
          (2, .orderExecuted ⟨⟨69, 7, 0, 3⟩, 2, 40⟩)]).1 := by
  refine (array_books_simulate_map_books UInt64.ofNat ⟨2⟩ (by decide) _ ?_ ?_ ?_).1
  · simp [Message.SharesInRange, FitsInt]
  · simp [Message.PriceIn, QuotedPrice, TickAligned, maxPriceFieldValue, price4]
  · refine ⟨fun stock s px => ?_, fun stock s px => ?_, fun stock s px => ?_, trivial⟩
    · show FitsInt ((if 7 = stock ∧ Side.buy = s ∧ 100000 = px then 100 else 0) + 0)
      split_ifs <;> decide
    · show FitsInt ((if 7 = stock ∧ Side.buy = s ∧ 110000 = px then 50 else 0) + 0)
      split_ifs <;> decide
    · show FitsInt ((if 7 = stock ∧ Side.buy = s ∧ 110000 = px then 10 else 0) + 0)
      split_ifs <;> decide

end ComputeBook

end JayBeams.Itch5
