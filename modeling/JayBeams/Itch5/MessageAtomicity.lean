import JayBeams.Itch5.ArrayRecords
import JayBeams.Itch5.ComputeBookSteps

/-!
# Messages that the books reject

`compute_book` changes the live orders before it changes the book, so that a message that raises
`feed_error` never leaves the live orders as they were (`handleMessage_raises`). The replace of an
order also takes the old order out of the book before the new one is rejected.

For the array-based book the messages that raise are told by what is known before them: `Accepts`
says that the parameters of each operation on the book are valid, and that the order to reduce has
something left and its level is recorded. These are the messages that leave nothing half done
(`handleMessage_atomic_iff`).
-/

set_option autoImplicit false

namespace JayBeams.Itch5.ComputeBook

open Containers Machines Machines.Machine

variable {κ : Type} [DecidableEq κ]

/-! ## A message that raises changes the live orders -/

section Raises

variable {β : Side → Type} [BookType β] {cb cb' : ComputeBook κ β} {recvts : Int}

theorem handleAddOrder_raises {msg : AddOrderMessage κ} {e : Failure}
    (h : (handleAddOrder recvts msg).run cb = .error e cb') :
    cb'.orders.find? msg.orderReferenceNumber ≠ cb.orders.find? msg.orderReferenceNumber := by
  cases hid : cb.orders.find? msg.orderReferenceNumber with
  | some data =>
      rw [handleAddOrder_duplicate (by simp [hid])] at h
      cases h
  | none =>
      rw [handleAddOrder_run hid] at h
      cases hbook : (OrderBook.handleAddOrder msg.buySellIndicator msg.price msg.shares).run
          (cb.bookOf msg.stock) with
      | ok r c =>
          rw [hbook] at h
          cases h
      | error e' c =>
          rw [hbook] at h
          cases h
          simp [addTo, UnorderedMap.find?_emplace, hid]

/-- What is left of an order that is reduced is not what it was. -/
theorem find?_takeFrom_reducedShares {id : UInt64} {data : OrderData κ}
    (hfind : cb.orders.find? id = some data) (shares : UInt32) (c : OrderBook β) :
    (cb.takeFrom id data (reducedShares data shares) c).orders.find? id ≠ some data := by
  rw [find?_orders_takeFrom hfind, if_pos rfl]
  split_ifs with hrest
  · simp
  · intro heq
    have hqty : int32 (data.qty - reducedShares data shares) = data.qty :=
      congrArg OrderData.qty (Option.some.inj heq)
    rcases reducedShares_cases data shares with hall | ⟨h0, hpart⟩
    · apply hrest
      rw [hall, Int.sub_self]
      rfl
    · -- the shares are not a multiple of the range of an `int`
      have hshares := shares.toNat_lt
      have hne : shares.toNat ≠ 0 := fun h => h0 (UInt32.toNat_inj.1 h)
      rw [hpart] at hqty
      unfold int32 at hqty
      omega

theorem handleOrderReduction_raises {header : MessageHeader} {id : UInt64} {shares : UInt32}
    {f : FeedError}
    (h : (handleOrderReduction recvts header id shares).run cb = .error (.feedError f) cb') :
    cb'.orders.find? id ≠ cb.orders.find? id := by
  cases hfind : cb.orders.find? id with
  | none =>
      rw [handleOrderReduction_unknown hfind] at h
      cases h
  | some data =>
      cases hbook : cb.books.find? data.stock with
      | none =>
          simp only [handleOrderReduction, EStateM.run_bind, EStateM.run_get, hfind, hbook] at h
          cases h
      | some book =>
          rw [handleOrderReduction_run hfind hbook] at h
          cases hrun : (OrderBook.handleOrderReduced data.buySellIndicator data.px
              (reducedShares data shares)).run book with
          | ok r c =>
              rw [hrun] at h
              cases h
          | error e c =>
              rw [hrun] at h
              cases h
              exact find?_takeFrom_reducedShares hfind shares c

theorem handleOrderReplace_raises {msg : OrderReplaceMessage} {f : FeedError}
    (h : (handleOrderReplace recvts msg).run cb = .error (.feedError f) cb') :
    cb'.orders.find? msg.originalOrderReferenceNumber ≠
      cb.orders.find? msg.originalOrderReferenceNumber := by
  cases hfind : cb.orders.find? msg.originalOrderReferenceNumber with
  | none =>
      rw [handleOrderReplace_ignored (.inl hfind)] at h
      cases h
  | some data =>
      cases hnew : cb.orders.find? msg.newOrderReferenceNumber with
      | some other =>
          rw [handleOrderReplace_ignored (.inr (by simp [hnew]))] at h
          cases h
      | none =>
          cases hbook : cb.books.find? data.stock with
          | none =>
              simp only [handleOrderReplace, EStateM.run_bind, EStateM.run_get, hfind, hnew,
                hbook] at h
              cases h
          | some book =>
              -- The old order is gone by the time that the book raises.
              have htake : ∀ b : OrderBook β, (cb.takeFrom msg.originalOrderReferenceNumber data
                  data.qty b).orders.find? msg.originalOrderReferenceNumber ≠ some data := by
                intro b
                rw [← reducedShares_zero data]
                exact find?_takeFrom_reducedShares hfind 0 b
              have hids : msg.originalOrderReferenceNumber ≠ msg.newOrderReferenceNumber := by
                intro heq
                rw [← heq, hfind] at hnew
                cases hnew
              rw [handleOrderReplace_run hfind hnew hbook] at h
              cases hred : (OrderBook.handleOrderReduced data.buySellIndicator data.px
                  data.qty).run book with
              | error e b =>
                  rw [hred] at h
                  cases h
                  exact htake b
              | ok r b =>
                  rw [hred] at h
                  simp only [] at h
                  cases hadd : (OrderBook.handleAddOrder data.buySellIndicator msg.price
                      msg.shares).run b with
                  | ok r' c =>
                      rw [hadd] at h
                      cases h
                  | error e c =>
                      rw [hadd] at h
                      cases h
                      simp only [addTo]
                      rw [UnorderedMap.find?_emplace, if_neg hids]
                      exact htake b

/-- A message that raises `feed_error` leaves another order under some id. -/
theorem handleMessage_raises {msg : Message κ} {f : FeedError}
    (h : (handleMessage recvts msg).run cb = .error (.feedError f) cb') :
    ∃ id, cb'.orders.find? id ≠ cb.orders.find? id := by
  cases msg with
  | addOrder m => exact ⟨_, handleAddOrder_raises h⟩
  | addOrderMpid m => exact ⟨_, handleAddOrder_raises h⟩
  | orderExecuted m => exact ⟨_, handleOrderReduction_raises h⟩
  | orderExecutedPrice m => exact ⟨_, handleOrderReduction_raises h⟩
  | orderCancel m => exact ⟨_, handleOrderReduction_raises h⟩
  | orderDelete m => exact ⟨_, handleOrderReduction_raises h⟩
  | orderReplace m => exact ⟨_, handleOrderReplace_raises h⟩
  | stockDirectory m => cases h
  | other header => cases h

end Raises

/-! ## What the array-based book accepts -/

section Accepts

variable {cb : ComputeBook κ ArrayBasedBookSide} {recvts : Int}

/-- The sides of a book are sound and zero past their insides. -/
def TidyBook (book : OrderBook ArrayBasedBookSide) : Prop :=
  ∀ s, ArrayBasedBookSide.Tidy (book.side s)

/-- The configuration is valid and so are the books. -/
structure TidyBooks (cb : ComputeBook κ ArrayBasedBookSide) : Prop where
  config : ArrayBasedConfig.validate cb.cfg = true
  books : ∀ stock book, cb.books.find? stock = some book → TidyBook book

/-- The parameters of an operation on a book are valid. -/
def ValidParams (px : Nat) (qty : Int) : Prop := 0 < qty ∧ px < maxPriceFieldValue price4

/-- A new order has valid parameters, unless it is a duplicate. -/
def AcceptsAdd (cb : ComputeBook κ ArrayBasedBookSide) (msg : AddOrderMessage κ) : Prop :=
  cb.orders.find? msg.orderReferenceNumber = none → ValidParams msg.price msg.shares

/-- An order has something left, at a price whose level is recorded in its book. -/
def InBook (data : OrderData κ) (book : OrderBook ArrayBasedBookSide) : Prop :=
  ValidParams data.px data.qty ∧ (book.side data.buySellIndicator).HasLevel (level data.px)

/-- The order reduced, if there is one, is in its book, and the shares are an `int`. -/
def AcceptsReduction (cb : ComputeBook κ ArrayBasedBookSide) (id : UInt64) (shares : UInt32) :
    Prop :=
  ∀ data book, cb.orders.find? id = some data → cb.books.find? data.stock = some book →
    InBook data book ∧ shares.toNat < 2147483648

/-- The order replaced is in its book and the new order has valid parameters, unless the message is
ignored. -/
def AcceptsReplace (cb : ComputeBook κ ArrayBasedBookSide) (msg : OrderReplaceMessage) : Prop :=
  ∀ data book, cb.orders.find? msg.originalOrderReferenceNumber = some data →
    cb.orders.find? msg.newOrderReferenceNumber = none →
    cb.books.find? data.stock = some book → InBook data book ∧ ValidParams msg.price msg.shares

/-- The operations on the books that a message asks for are accepted. -/
def Accepts (cb : ComputeBook κ ArrayBasedBookSide) : Message κ → Prop
  | .addOrder msg => cb.AcceptsAdd msg
  | .addOrderMpid msg => cb.AcceptsAdd msg
  | .orderExecuted msg => cb.AcceptsReduction msg.orderReferenceNumber msg.executedShares
  | .orderExecutedPrice msg => cb.AcceptsReduction msg.orderReferenceNumber msg.executedShares
  | .orderCancel msg => cb.AcceptsReduction msg.orderReferenceNumber msg.canceledShares
  | .orderDelete msg => cb.AcceptsReduction msg.orderReferenceNumber 0
  | .orderReplace msg => cb.AcceptsReplace msg
  | .stockDirectory _ => True
  | .other _ => True

/-! ### Operations on a book -/

section Books

variable {book c : OrderBook ArrayBasedBookSide}

theorem tidyBook_make {cfg : ArrayBasedConfig} (hcfg : cfg.validate = true) :
    TidyBook (OrderBook.make cfg) := by
  intro s
  cases s with
  | buy => exact ArrayBasedBookSide.Tidy.make cfg hcfg
  | sell => exact ArrayBasedBookSide.Tidy.make cfg hcfg

theorem TidyBook.setSide (h : TidyBook book) (s : Side) {b : ArrayBasedBookSide s}
    (hb : ArrayBasedBookSide.Tidy b) : TidyBook (book.setSide s b) := by
  intro t
  rcases eq_or_ne t s with rfl | hts
  · rwa [OrderBook.side_setSide_self]
  · rw [OrderBook.side_setSide_of_ne book hts]
    exact h t

theorem TidyBook.handleAddOrder_checked (h : TidyBook book) (s : Side) (px : Nat) (qty : Int) :
    Checked TidyBook (ValidParams px qty) True ((OrderBook.handleAddOrder s px qty).run book) := by
  have hside := ArrayBasedBookSide.addOrder_checked (h s) px qty
  cases s with
  | buy =>
      refine Checked.onPart ?_ fun b hb => h.setSide .buy hb
      exact hside
  | sell =>
      refine Checked.onPart ?_ fun b hb => h.setSide .sell hb
      exact hside

theorem TidyBook.handleOrderReduced_checked (h : TidyBook book) (s : Side) (px : Nat)
    (qty : Int) :
    Checked TidyBook (ValidParams px qty ∧ (book.side s).HasLevel (level px)) False
      ((OrderBook.handleOrderReduced s px qty).run book) := by
  have hside := ArrayBasedBookSide.reduceOrder_checked (h s) px qty
  cases s with
  | buy =>
      refine Checked.onPart ?_ fun b hb => h.setSide .buy hb
      exact hside
  | sell =>
      refine Checked.onPart ?_ fun b hb => h.setSide .sell hb
      exact hside

end Books

/-! ### Handlers -/

theorem TidyBooks.bookOf (h : cb.TidyBooks) (stock : κ) : TidyBook (cb.bookOf stock) :=
  AllBooks.bookOf h.books (tidyBook_make h.config) stock

theorem TidyBooks.addTo (h : cb.TidyBooks) (id : UInt64) (data : OrderData κ)
    {c : OrderBook ArrayBasedBookSide} (hc : TidyBook c) : (cb.addTo id data c).TidyBooks :=
  ⟨h.config, AllBooks.addTo h.books hc⟩

theorem TidyBooks.takeFrom (h : cb.TidyBooks) {id : UInt64} {data : OrderData κ}
    (hhas : cb.books.find? data.stock ≠ none) (qty : Int) {c : OrderBook ArrayBasedBookSide}
    (hc : TidyBook c) : (cb.takeFrom id data qty c).TidyBooks :=
  ⟨h.config, AllBooks.takeFrom h.books hhas hc⟩

/-- An order is added to a book whatever the book says. -/
theorem TidyBooks.addTo_checked (h : cb.TidyBooks) (id : UInt64) (data : OrderData κ)
    {book : OrderBook ArrayBasedBookSide} (hbook : TidyBook book)
    (call : OrderBook ArrayBasedBookSide → Option (Callback κ ArrayBasedBookSide)) :
    Checked TidyBooks (ValidParams data.px data.qty) True
      (match (OrderBook.handleAddOrder data.buySellIndicator data.px data.qty).run book with
      | .ok _ c => .ok (call c) (cb.addTo id data c)
      | .error e c => .error e (cb.addTo id data c)) := by
  have hadd := hbook.handleAddOrder_checked data.buySellIndicator data.px data.qty
  cases hrun : (OrderBook.handleAddOrder data.buySellIndicator data.px data.qty).run book with
  | ok r c =>
      rw [hrun] at hadd
      cases hadd with
      | done hacc hc => exact .done hacc (h.addTo id data hc)
  | error e c =>
      rw [hrun] at hadd
      cases hadd with
      | fault hacc _ he => exact .fault hacc trivial he
      | raised hrej hc => exact .raised hrej (h.addTo id data hc)

/-- And shares are taken from an order whatever its book says. -/
theorem TidyBooks.takeFrom_checked (h : cb.TidyBooks) (id : UInt64) (data : OrderData κ)
    {book : OrderBook ArrayBasedBookSide} (hbook : cb.books.find? data.stock = some book)
    (qty : Int) (call : OrderBook ArrayBasedBookSide → Option (Callback κ ArrayBasedBookSide)) :
    Checked TidyBooks
      (ValidParams data.px qty ∧ (book.side data.buySellIndicator).HasLevel (level data.px)) True
      (match (OrderBook.handleOrderReduced data.buySellIndicator data.px qty).run book with
      | .ok _ c => .ok (call c) (cb.takeFrom id data qty c)
      | .error e c => .error e (cb.takeFrom id data qty c)) := by
  have hhas : cb.books.find? data.stock ≠ none := by simp [hbook]
  have hred := (h.books data.stock book hbook).handleOrderReduced_checked data.buySellIndicator
    data.px qty
  cases hrun : (OrderBook.handleOrderReduced data.buySellIndicator data.px qty).run book with
  | ok r c =>
      rw [hrun] at hred
      cases hred with
      | done hacc hc => exact .done hacc (h.takeFrom hhas qty hc)
  | error e c =>
      rw [hrun] at hred
      cases hred with
      | fault _ hmay _ => exact hmay.elim
      | raised hrej hc => exact .raised hrej (h.takeFrom hhas qty hc)

theorem handleAddOrder_checked (h : cb.TidyBooks) (msg : AddOrderMessage κ) :
    Checked TidyBooks (cb.AcceptsAdd msg) True ((handleAddOrder recvts msg).run cb) := by
  cases hid : cb.orders.find? msg.orderReferenceNumber with
  | some data =>
      rw [handleAddOrder_duplicate (by simp [hid])]
      refine .done (fun hnone => ?_) h
      rw [hid] at hnone
      cases hnone
  | none =>
      have hadd := h.addTo_checked msg.orderReferenceNumber
        ⟨msg.stock, msg.buySellIndicator, msg.price, msg.shares⟩ (h.bookOf msg.stock)
        fun c => some ⟨msg.header, c, BookUpdate.ofLevel recvts msg.stock msg.buySellIndicator
          msg.price msg.shares⟩
      have hacc : ValidParams msg.price msg.shares ↔ cb.AcceptsAdd msg :=
        ⟨fun hvalid _ => hvalid, fun hall => hall hid⟩
      rw [handleAddOrder_run hid]
      cases hrun : (OrderBook.handleAddOrder msg.buySellIndicator msg.price msg.shares).run
          (cb.bookOf msg.stock) with
      | ok r c =>
          rw [hrun] at hadd
          exact hadd.congr hacc
      | error e c =>
          rw [hrun] at hadd
          exact hadd.congr hacc

theorem handleOrderReduction_checked (h : cb.TidyBooks) (header : MessageHeader) (id : UInt64)
    (shares : UInt32) :
    Checked TidyBooks (cb.AcceptsReduction id shares) True
      ((handleOrderReduction recvts header id shares).run cb) := by
  cases hfind : cb.orders.find? id with
  | none =>
      rw [handleOrderReduction_unknown hfind]
      refine .done (fun data book hdata => ?_) h
      rw [hfind] at hdata
      cases hdata
  | some data =>
      cases hbook : cb.books.find? data.stock with
      | none =>
          simp only [handleOrderReduction, EStateM.run_bind, EStateM.run_get, hfind, hbook]
          refine .fault (fun data' book hdata hbook' => ?_) trivial rfl
          cases hfind.symm.trans hdata
          rw [hbook] at hbook'
          cases hbook'
      | some book =>
          -- what the book checks is what is known before the message
          have hacc : cb.AcceptsReduction id shares ↔
              ValidParams data.px (reducedShares data shares) ∧
                (book.side data.buySellIndicator).HasLevel (level data.px) := by
            rw [ValidParams, reducedShares_pos_iff]
            constructor
            · intro hall
              obtain ⟨⟨⟨hq, hpx⟩, hlevel⟩, hshares⟩ := hall data book hfind hbook
              exact ⟨⟨⟨hq, hshares⟩, hpx⟩, hlevel⟩
            · rintro ⟨⟨⟨hq, hshares⟩, hpx⟩, hlevel⟩ data' book' hdata hbook'
              cases hfind.symm.trans hdata
              cases hbook.symm.trans hbook'
              exact ⟨⟨⟨hq, hpx⟩, hlevel⟩, hshares⟩
          have hred := h.takeFrom_checked id data hbook (reducedShares data shares)
            fun c => some ⟨header, c, BookUpdate.ofLevel recvts data.stock data.buySellIndicator
              data.px (int32 (-reducedShares data shares))⟩
          rw [handleOrderReduction_run hfind hbook]
          cases hrun : (OrderBook.handleOrderReduced data.buySellIndicator data.px
              (reducedShares data shares)).run book with
          | ok r c =>
              rw [hrun] at hred
              exact hred.congr hacc.symm
          | error e c =>
              rw [hrun] at hred
              exact hred.congr hacc.symm

theorem handleOrderReplace_checked (h : cb.TidyBooks) (msg : OrderReplaceMessage) :
    Checked TidyBooks (cb.AcceptsReplace msg) True ((handleOrderReplace recvts msg).run cb) := by
  cases hfind : cb.orders.find? msg.originalOrderReferenceNumber with
  | none =>
      -- The message is ignored, so there is nothing to accept.
      rw [handleOrderReplace_ignored (.inl hfind)]
      refine .done (fun data book hdata => ?_) h
      rw [hfind] at hdata
      cases hdata
  | some data =>
      cases hnew : cb.orders.find? msg.newOrderReferenceNumber with
      | some other =>
          rw [handleOrderReplace_ignored (.inr (by simp [hnew]))]
          refine .done (fun data' book _ hnone => ?_) h
          rw [hnew] at hnone
          cases hnone
      | none =>
          cases hbook : cb.books.find? data.stock with
          | none =>
              -- An order without a book is a fault of the program.
              simp only [handleOrderReplace, EStateM.run_bind, EStateM.run_get, hfind, hnew, hbook]
              refine .fault (fun data' book hdata _ hbook' => ?_) trivial rfl
              cases hfind.symm.trans hdata
              rw [hbook] at hbook'
              cases hbook'
          | some book =>
              have hhas : cb.books.find? data.stock ≠ none := by simp [hbook]
              have hred := (h.books data.stock book hbook).handleOrderReduced_checked
                data.buySellIndicator data.px data.qty
              have hacc : cb.AcceptsReplace msg ↔
                  InBook data book ∧ ValidParams msg.price msg.shares := by
                constructor
                · intro hall
                  exact hall data book hfind hnew hbook
                · intro hboth data' book' hdata _ hbook'
                  cases hfind.symm.trans hdata
                  cases hbook.symm.trans hbook'
                  exact hboth
              rw [handleOrderReplace_run hfind hnew hbook]
              cases hrun : (OrderBook.handleOrderReduced data.buySellIndicator data.px
                  data.qty).run book with
              | error e b =>
                  rw [hrun] at hred
                  cases hred with
                  | fault _ hmay _ => exact hmay.elim
                  | raised hrej hb =>
                      -- The order was not in its book, and the new one is not added.
                      exact .raised (fun hall => hrej (hacc.1 hall).1) (h.takeFrom hhas _ hb)
              | ok r b =>
                  rw [hrun] at hred
                  cases hred with
                  | done hdone hb =>
                      -- The old order was taken out, and the new one decides.
                      have htake : (cb.takeFrom msg.originalOrderReferenceNumber data data.qty
                          b).TidyBooks := h.takeFrom hhas _ hb
                      have hadd := htake.addTo_checked msg.newOrderReferenceNumber
                        ⟨data.stock, data.buySellIndicator, msg.price, msg.shares⟩ hb
                        fun c => some ⟨msg.header, c, recvts, data.stock, data.buySellIndicator,
                          msg.price, msg.shares, true, data.px, int32 (-int32 (-data.qty))⟩
                      have hnewacc : ValidParams msg.price msg.shares ↔ cb.AcceptsReplace msg :=
                        ⟨fun hvalid => hacc.2 ⟨hdone, hvalid⟩, fun hall => (hacc.1 hall).2⟩
                      simp only []
                      cases hrun' : (OrderBook.handleAddOrder data.buySellIndicator msg.price
                          msg.shares).run b with
                      | ok r' c =>
                          rw [hrun'] at hadd
                          exact hadd.congr hnewacc
                      | error e c =>
                          rw [hrun'] at hadd
                          exact hadd.congr hnewacc

theorem TidyBooks.listed (h : cb.TidyBooks) (stock : κ) :
    TidyBooks { cb with books := cb.books.emplace stock (OrderBook.make cb.cfg) } :=
  ⟨h.config, AllBooks.listed h.books (tidyBook_make h.config) stock⟩

/-- What a message does is decided by what is known before it. -/
theorem handleMessage_checked (h : cb.TidyBooks) (msg : Message κ) :
    Checked TidyBooks (cb.Accepts msg) True ((handleMessage recvts msg).run cb) := by
  cases msg with
  | addOrder m => exact handleAddOrder_checked h m
  | addOrderMpid m => exact handleAddOrder_checked h m
  | orderExecuted m => exact handleOrderReduction_checked h _ _ _
  | orderExecutedPrice m => exact handleOrderReduction_checked h _ _ _
  | orderCancel m => exact handleOrderReduction_checked h _ _ _
  | orderDelete m => exact handleOrderReduction_checked h _ _ _
  | orderReplace m => exact handleOrderReplace_checked h m
  | stockDirectory m => exact .done trivial (h.listed m.stock)
  | other header => exact .done trivial h

end Accepts

/-! ## Reached states -/

section Reached

/-- The live orders and the books have the same contents. -/
structure SameContents (cb cb' : ComputeBook κ ArrayBasedBookSide) : Prop where
  orders : ∀ id, cb'.orders.find? id = cb.orders.find? id
  books : ∀ stock, cb'.books.find? stock = cb.books.find? stock

/-- A message that raises `feed_error` leaves the contents as they were. The callback is only
invoked by a message that returns. -/
def Atomic (cb : ComputeBook κ ArrayBasedBookSide) (recvts : Int) (msg : Message κ) : Prop :=
  ∀ f cb', (handleMessage recvts msg).run cb = .error (.feedError f) cb' → SameContents cb cb'

theorem TidyBooks.atomic_iff {cb : ComputeBook κ ArrayBasedBookSide} (h : cb.TidyBooks)
    (recvts : Int) (msg : Message κ) : cb.Atomic recvts msg ↔ cb.Accepts msg := by
  have hchecked : Checked TidyBooks (cb.Accepts msg) True ((handleMessage recvts msg).run cb) :=
    handleMessage_checked h msg
  have hraises := hchecked.raises_iff
  constructor
  · intro hatomic
    by_contra hrej
    obtain ⟨f, cb', hrun⟩ := hraises.2 hrej
    obtain ⟨id, hid⟩ := handleMessage_raises hrun
    exact hid ((hatomic f cb' hrun).orders id)
  · intro hacc f cb' hrun
    exact absurd hacc (hraises.1 ⟨f, cb', hrun⟩)

/-- The state after a run of messages. -/
def reached (hashValue : κ → UInt64) (cfg : ArrayBasedConfig) (is : List (Int × Message κ)) :
    ComputeBook κ ArrayBasedBookSide :=
  ((machine κ ArrayBasedBookSide).run (make hashValue cfg) is).2

/-- No message of the run led to a fault. -/
def FaultFree (hashValue : κ → UInt64) (cfg : ArrayBasedConfig) (is : List (Int × Message κ)) :
    Prop :=
  ∀ o ∈ ((machine κ ArrayBasedBookSide).run (make hashValue cfg) is).1, ∀ e, o = .error e →
    e.isFault = false

theorem tidyBooks_make (hashValue : κ → UInt64) {cfg : ArrayBasedConfig}
    (hcfg : cfg.validate = true) :
    TidyBooks (make hashValue cfg : ComputeBook κ ArrayBasedBookSide) := by
  refine ⟨hcfg, fun stock book hbook => ?_⟩
  simp [make] at hbook

theorem tidyBooks_reached {hashValue : κ → UInt64} {cfg : ArrayBasedConfig}
    (hcfg : cfg.validate = true) {is : List (Int × Message κ)}
    (his : FaultFree hashValue cfg is) : (reached hashValue cfg is).TidyBooks := by
  have hmake := tidyBooks_make hashValue hcfg
  refine run_invariant_of_outputs ?_ his hmake
  intro cb i h hout
  rw [machine_step_state]
  apply (handleMessage_checked h i.2).final
  intro e cb' hrun
  have heq : (machine κ ArrayBasedBookSide).step cb i = (.error e, cb') :=
    ofAction_step_error hrun
  exact hout e (by rw [heq])

/-- From any state reached without a fault, a message leaves no change behind when it raises exactly
when the operations on the books that it asks for are accepted, in which case it does not raise. -/
theorem handleMessage_atomic_iff (hashValue : κ → UInt64) (cfg : ArrayBasedConfig)
    (hcfg : cfg.validate = true) (is : List (Int × Message κ)) (his : FaultFree hashValue cfg is)
    (recvts : Int) (msg : Message κ) :
    (reached hashValue cfg is).Atomic recvts msg ↔ (reached hashValue cfg is).Accepts msg :=
  (tidyBooks_reached hcfg his).atomic_iff recvts msg

/-- One buy of a hundred shares at ten dollars. -/
def oneBuy : List (Int × Message Nat) := [(0, .addOrder ⟨⟨65, 7, 0, 1⟩, 1, .buy, 100, 7, 100000⟩)]

theorem faultFree_oneBuy : FaultFree UInt64.ofNat ⟨4⟩ oneBuy := by
  obtain ⟨call, hcall⟩ : ∃ call, ((machine Nat ArrayBasedBookSide).run
      (make UInt64.ofNat (ArrayBasedConfig.mk 4)) oneBuy).1 = [.ok call] := ⟨_, rfl⟩
  rw [FaultFree, hcall]
  simp

theorem handleMessage_atomic_replace :
    (ArrayBasedConfig.mk 4).validate = true ∧
      (reached UInt64.ofNat ⟨4⟩ oneBuy).Atomic 1
        (.orderReplace ⟨⟨85, 7, 0, 2⟩, 1, 2, 100, 110000⟩) := by
  refine ⟨rfl, (handleMessage_atomic_iff UInt64.ofNat ⟨4⟩ rfl oneBuy faultFree_oneBuy 1 _).2 ?_⟩
  intro data book hdata _ hbook
  have horder : (reached UInt64.ofNat ⟨4⟩ oneBuy).orders.find? 1 =
      some ⟨7, .buy, 100000, 100⟩ := by decide
  cases horder.symm.trans hdata
  have hlevel : (((reached UInt64.ofNat ⟨4⟩ oneBuy).bookOf 7).side .buy).HasLevel
      (level 100000) := by decide
  rw [bookOf, hbook, Option.getD_some] at hlevel
  exact ⟨⟨⟨by decide, by decide⟩, hlevel⟩, by decide, by decide⟩

/-- The replace of an order by one at a price that is not valid: the old order is gone, from the
live orders and from its book, and the new one is a live order that is in no book. -/
theorem replace_half_done :
    (ArrayBasedConfig.mk 4).validate = true ∧ FaultFree UInt64.ofNat ⟨4⟩ oneBuy ∧
      (∃ f cb', (handleMessage 1 (.orderReplace ⟨⟨85, 7, 0, 2⟩, 1, 2, 100, 2000000000⟩)).run
          (reached UInt64.ofNat ⟨4⟩ oneBuy) = .error (.feedError f) cb' ∧
        (reached UInt64.ofNat ⟨4⟩ oneBuy).orders.find? 1 = some ⟨7, .buy, 100000, 100⟩ ∧
        cb'.orders.find? 1 = none ∧ cb'.orders.find? 2 = some ⟨7, .buy, 2000000000, 100⟩ ∧
        ((reached UInt64.ofNat ⟨4⟩ oneBuy).bookOf 7).bestBid = .ok ⟨100000, 100⟩ ∧
        (cb'.bookOf 7).bestBid = .ok emptyBid) ∧
      ¬ (reached UInt64.ofNat ⟨4⟩ oneBuy).Atomic 1
        (.orderReplace ⟨⟨85, 7, 0, 2⟩, 1, 2, 100, 2000000000⟩) := by
  refine ⟨rfl, faultFree_oneBuy, ⟨_, _, rfl, by decide, by decide, by decide, by decide +kernel,
    by decide +kernel⟩, ?_⟩
  intro hatomic
  have horders := (hatomic _ _ rfl).orders 1
  exact absurd horders (by decide)

end Reached

end JayBeams.Itch5.ComputeBook
