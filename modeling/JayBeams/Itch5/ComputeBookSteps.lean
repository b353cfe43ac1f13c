import JayBeams.Itch5.ComputeBook

/-!
# Steps of the books

A message changes the state in one of two ways, or in both for a replace: an order is added (`addTo`),
or shares are taken from an order (`takeFrom`). Both touch the book of one security and the total of
the live orders at one level of it. The handlers are these changes, with the book that the operation
on it leaves behind (`handleAddOrder_run`, `handleOrderReduction_run`, `handleOrderReplace_run`).
-/

set_option autoImplicit false

namespace JayBeams.Itch5

open Containers Machines Machines.Machine

/-! ## Totals of the live orders -/

section Totals

variable {κ : Type} [DecidableEq κ] (β : Side → Type) [BookType β] [LawfulBook β]

/-- What an order adds to a level of a book. -/
def OrderData.levelQty (data : OrderData κ) (stock : κ) (s : Side) (k : Nat) : Int :=
  if data.stock = stock ∧ data.buySellIndicator = s ∧ LawfulBook.key β data.px = k then data.qty
  else 0

variable {β}

theorem OrderData.levelQty_self (data : OrderData κ) :
    data.levelQty β data.stock data.buySellIndicator (LawfulBook.key β data.px) = data.qty :=
  if_pos ⟨rfl, rfl, rfl⟩

theorem OrderData.levelQty_of_ne (data : OrderData κ) {stock : κ} {s : Side} {k : Nat}
    (h : stock = data.stock → s = data.buySellIndicator → k ≠ LawfulBook.key β data.px) :
    data.levelQty β stock s k = 0 :=
  if_neg fun ⟨hstock, hs, hk⟩ => h hstock.symm hs.symm hk.symm

variable (β)

/-- The total of the live orders at a level. -/
def levelTotal (orders : UnorderedMap UInt64 (OrderData κ)) (stock : κ) (s : Side) (k : Nat) : Int :=
  orders.total fun _ data => data.levelQty β stock s k

/-- The total at each level fits in an `int`. -/
def TotalsFit (orders : UnorderedMap UInt64 (OrderData κ)) : Prop :=
  ∀ stock s k, FitsInt (levelTotal β orders stock s k)

variable {β}

/-- An order is part of the total at its level. -/
theorem qty_le_levelTotal {orders : UnorderedMap UInt64 (OrderData κ)}
    (h : ∀ id data, orders.find? id = some data → 0 < data.qty) {id : UInt64} {data : OrderData κ}
    (hfind : orders.find? id = some data) :
    data.qty ≤ levelTotal β orders data.stock data.buySellIndicator (LawfulBook.key β data.px) := by
  rw [← data.levelQty_self (β := β)]
  apply UnorderedMap.weight_le_total hfind fun _ d => OrderData.levelQty β d data.stock
    data.buySellIndicator (LawfulBook.key β data.px)
  intro e he
  have hpos := h e.1 e.2 (UnorderedMap.find?_eq_some_iff.2 he)
  rw [OrderData.levelQty]
  split_ifs
  · exact hpos.le
  · exact le_rfl

theorem levelTotal_emplace {orders : UnorderedMap UInt64 (OrderData κ)} {id : UInt64}
    (h : orders.find? id = none) (data : OrderData κ) (stock : κ) (s : Side) (k : Nat) :
    levelTotal β (orders.emplace id data) stock s k =
      levelTotal β orders stock s k + data.levelQty β stock s k :=
  UnorderedMap.total_emplace h data _

theorem totalsFit_of_single {orders : UnorderedMap UInt64 (OrderData κ)} (id : UInt64)
    (data : OrderData κ) (horders : orders.entries = [(id, data)]) (hfit : FitsInt data.qty) :
    TotalsFit β orders := by
  intro stock s k
  rw [levelTotal, UnorderedMap.total, horders]
  simp only [List.map_cons, List.map_nil, List.sum_cons, List.sum_nil, OrderData.levelQty, add_zero]
  split_ifs
  · exact hfit
  · decide

end Totals

namespace ComputeBook

section ReducedShares

variable {κ : Type} {data : OrderData κ} {shares : UInt32}

theorem reducedShares_zero (data : OrderData κ) : reducedShares data 0 = data.qty := by
  simp [reducedShares]

theorem reducedShares_pos (hq : 0 < data.qty) (hshares : shares.toNat < 2147483648) :
    0 < reducedShares data shares := by
  have hint : int32 shares.toNat = shares.toNat :=
    int32_of_fits ⟨by omega, by omega⟩
  simp only [reducedShares, hint]
  split_ifs with hzero hlt hlt
  · exact hq
  · exact hq
  · exact hq
  · have hne : shares.toNat ≠ 0 := fun h => hzero (UInt32.toNat_inj.1 h)
    omega

theorem reducedShares_le (data : OrderData κ) (shares : UInt32) :
    reducedShares data shares ≤ data.qty := by
  simp only [reducedShares]
  split_ifs <;> omega

/-- Either all of an order is taken away or the shares that the message says. -/
theorem reducedShares_cases (data : OrderData κ) (shares : UInt32) :
    reducedShares data shares = data.qty ∨
      shares ≠ 0 ∧ reducedShares data shares = int32 shares.toNat := by
  simp only [reducedShares]
  by_cases h0 : shares = 0
  · left
    rw [if_pos h0, if_neg (lt_irrefl _)]
  · rw [if_neg h0]
    by_cases hlt : data.qty < int32 shares.toNat
    · exact Or.inl (if_pos hlt)
    · exact Or.inr ⟨h0, if_neg hlt⟩

/-- The shares taken away are positive when the order has some and those of the message are an
`int`. -/
theorem reducedShares_pos_iff (data : OrderData κ) (shares : UInt32) :
    0 < reducedShares data shares ↔ 0 < data.qty ∧ shares.toNat < 2147483648 := by
  constructor
  · intro h
    have hle := reducedShares_le data shares
    refine ⟨by omega, ?_⟩
    by_cases h0 : shares = 0
    -- Zero shares stand for all that the order has.
    · rw [h0]
      decide
    · have hshares := shares.toNat_lt
      simp only [reducedShares, if_neg h0] at h
      unfold int32 at h
      split_ifs at h <;> omega
  · rintro ⟨hq, hshares⟩
    exact reducedShares_pos hq hshares

end ReducedShares

variable {κ : Type} [DecidableEq κ] {β : Side → Type} [BookType β]

/-! ## Two changes of the state -/

/-- The book of a security, an empty one when there is none yet. -/
def bookOf (cb : ComputeBook κ β) (stock : κ) : OrderBook β :=
  (cb.books.find? stock).getD (OrderBook.make cb.cfg)

/-- The state with a new order, and the given book for its security. -/
def addTo (cb : ComputeBook κ β) (id : UInt64) (data : OrderData κ) (c : OrderBook β) :
    ComputeBook κ β :=
  { cb with
    orders := cb.orders.emplace id data
    books := (cb.books.emplace data.stock (OrderBook.make cb.cfg)).modify data.stock fun _ => c }

/-- The state with shares taken from an order, and the given book for its security. -/
def takeFrom (cb : ComputeBook κ β) (id : UInt64) (data : OrderData κ) (qty : Int)
    (c : OrderBook β) : ComputeBook κ β :=
  let orders := cb.orders.modify id fun data => { data with qty := int32 (data.qty - qty) }
  { cb with
    orders := if int32 (data.qty - qty) = 0 then orders.erase id else orders
    books := cb.books.modify data.stock fun _ => c }

variable {cb : ComputeBook κ β} {id : UInt64} {data : OrderData κ} {qty : Int} {c : OrderBook β}

theorem find?_books_addTo (cb : ComputeBook κ β) (id : UInt64) (data : OrderData κ)
    (c : OrderBook β) (stock : κ) :
    (cb.addTo id data c).books.find? stock =
      if stock = data.stock then some c else cb.books.find? stock := by
  rw [addTo, UnorderedMap.find?_modify, UnorderedMap.find?_emplace, UnorderedMap.find?_emplace,
    if_pos rfl, Option.map_some]
  split_ifs <;> rfl

theorem find?_books_takeFrom (h : cb.books.find? data.stock ≠ none) (id : UInt64) (qty : Int)
    (c : OrderBook β) (stock : κ) :
    (cb.takeFrom id data qty c).books.find? stock =
      if stock = data.stock then some c else cb.books.find? stock := by
  obtain ⟨b, hb⟩ := Option.ne_none_iff_exists'.1 h
  rw [takeFrom, UnorderedMap.find?_modify, hb, Option.map_some]

theorem bookOf_addTo (cb : ComputeBook κ β) (id : UInt64) (data : OrderData κ)
    (c : OrderBook β) (stock : κ) :
    (cb.addTo id data c).bookOf stock = if stock = data.stock then c else cb.bookOf stock := by
  rw [bookOf, find?_books_addTo]
  split_ifs <;> rfl

theorem bookOf_takeFrom (h : cb.books.find? data.stock ≠ none) (id : UInt64) (qty : Int)
    (c : OrderBook β) (stock : κ) :
    (cb.takeFrom id data qty c).bookOf stock =
      if stock = data.stock then c else cb.bookOf stock := by
  rw [bookOf, find?_books_takeFrom h]
  split_ifs <;> rfl

/-- The book listed for a security is the empty one that it has anyway. -/
theorem bookOf_listed (cb : ComputeBook κ β) (listed stock : κ) :
    bookOf { cb with books := cb.books.emplace listed (OrderBook.make cb.cfg) } stock =
      cb.bookOf stock := by
  simp only [bookOf, UnorderedMap.find?_emplace]
  split_ifs with hstock
  · rw [hstock, Option.getD_some]
  · rfl

/-! ### Securities with a book -/

section HasBook

variable {stock : κ}

theorem hasBook_addTo (h : cb.books.find? stock ≠ none) :
    (cb.addTo id data c).books.find? stock ≠ none := by
  rw [find?_books_addTo]
  split_ifs
  · exact Option.some_ne_none c
  · exact h

theorem hasBook_addTo_self : (cb.addTo id data c).books.find? data.stock ≠ none := by
  rw [find?_books_addTo, if_pos rfl]
  exact Option.some_ne_none c

theorem hasBook_takeFrom (hhas : cb.books.find? data.stock ≠ none) (h : cb.books.find? stock ≠ none) :
    (cb.takeFrom id data qty c).books.find? stock ≠ none := by
  rw [find?_books_takeFrom hhas]
  split_ifs
  · exact Option.some_ne_none c
  · exact h

theorem hasBook_emplace (listed : κ) (h : cb.books.find? stock ≠ none) :
    (cb.books.emplace listed c).find? stock ≠ none := by
  rw [UnorderedMap.find?_emplace]
  split_ifs
  · exact Option.some_ne_none _
  · exact h

end HasBook

/-! ### A property of all the books -/

/-- All the books have a property. -/
def AllBooks (P : OrderBook β → Prop) (cb : ComputeBook κ β) : Prop :=
  ∀ stock book, cb.books.find? stock = some book → P book

namespace AllBooks

variable {P : OrderBook β → Prop}

theorem bookOf (h : AllBooks P cb) (hmake : P (OrderBook.make cb.cfg)) (stock : κ) :
    P (cb.bookOf stock) := by
  rw [ComputeBook.bookOf]
  cases hbook : cb.books.find? stock with
  | none => exact hmake
  | some book => exact h stock book hbook

theorem addTo (h : AllBooks P cb) (hc : P c) : AllBooks P (cb.addTo id data c) := by
  intro stock book hbook
  rw [find?_books_addTo] at hbook
  split_ifs at hbook
  · cases hbook
    exact hc
  · exact h stock book hbook

theorem takeFrom (h : AllBooks P cb) (hhas : cb.books.find? data.stock ≠ none) (hc : P c) :
    AllBooks P (cb.takeFrom id data qty c) := by
  intro stock book hbook
  rw [find?_books_takeFrom hhas] at hbook
  split_ifs at hbook
  · cases hbook
    exact hc
  · exact h stock book hbook

theorem listed (h : AllBooks P cb) (hmake : P (OrderBook.make cb.cfg)) (stock : κ) :
    AllBooks P { cb with books := cb.books.emplace stock (OrderBook.make cb.cfg) } := by
  intro other book hbook
  rw [UnorderedMap.find?_emplace] at hbook
  split_ifs at hbook
  · cases hbook
    exact h.bookOf hmake stock
  · exact h other book hbook

end AllBooks

/-- What remains of an order from which shares were taken. -/
theorem find?_orders_takeFrom (hfind : cb.orders.find? id = some data) (qty : Int)
    (c : OrderBook β) (j : UInt64) :
    (cb.takeFrom id data qty c).orders.find? j =
      if j = id then
        if int32 (data.qty - qty) = 0 then none else some { data with qty := int32 (data.qty - qty) }
      else cb.orders.find? j := by
  simp only [takeFrom]
  split_ifs with hrest hj hj
  · rw [UnorderedMap.find?_erase, if_pos hj]
  · rw [UnorderedMap.find?_erase, if_neg hj, UnorderedMap.find?_modify, if_neg hj]
  · rw [UnorderedMap.find?_modify, if_pos hj, hfind, Option.map_some]
  · rw [UnorderedMap.find?_modify, if_neg hj]

/-- An id that is not that of a live order still is not. -/
theorem find?_new_takeFrom (hfind : cb.orders.find? id = some data) {new : UInt64}
    (hnew : cb.orders.find? new = none) (qty : Int) (c : OrderBook β) :
    (cb.takeFrom id data qty c).orders.find? new = none := by
  rw [find?_orders_takeFrom hfind, if_neg, hnew]
  rintro rfl
  rw [hfind] at hnew
  exact absurd hnew (by simp)

theorem levelTotal_takeFrom [LawfulBook β] (hfind : cb.orders.find? id = some data)
    (hrest : int32 (data.qty - qty) = data.qty - qty) (c : OrderBook β) (stock : κ) (s : Side)
    (k : Nat) :
    levelTotal β (cb.takeFrom id data qty c).orders stock s k =
      levelTotal β cb.orders stock s k -
        OrderData.levelQty β { data with qty := qty } stock s k := by
  have hmodify := UnorderedMap.total_modify hfind
    (fun data => { data with qty := int32 (data.qty - qty) })
    fun _ data => data.levelQty β stock s k
  -- What the order counts at its level is what is taken and what remains.
  have hsplit : data.levelQty β stock s k =
      OrderData.levelQty β { data with qty := qty } stock s k +
        OrderData.levelQty β { data with qty := data.qty - qty } stock s k := by
    simp only [OrderData.levelQty]
    split_ifs <;> omega
  rw [hrest] at hmodify
  simp only [takeFrom, hrest]
  split_ifs with hzero
  · have hfind' : (cb.orders.modify id fun data =>
        { data with qty := int32 (data.qty - qty) }).find? id =
          some { data with qty := data.qty - qty } := by
      rw [UnorderedMap.find?_modify, if_pos rfl, hfind, Option.map_some, hrest]
    have herase := UnorderedMap.total_erase hfind' fun _ data => data.levelQty β stock s k
    -- Nothing remains, so erasing the order takes no more away.
    have hnothing : OrderData.levelQty β { data with qty := data.qty - qty } stock s k = 0 := by
      simp only [OrderData.levelQty, hzero]
      split_ifs <;> rfl
    simp only [levelTotal] at *
    omega
  · simp only [levelTotal] at *
    omega

/-! ## Runs of the handlers -/

section Runs

variable {recvts : Int} {book : OrderBook β} {shares : UInt32}

theorem updateBook_run (stock : κ) (act : EStateM Failure (OrderBook β) Bool) :
    (updateBook stock book act).run cb =
      match act.run book with
      | .ok _ b => .ok b { cb with books := cb.books.modify stock fun _ => b }
      | .error e b => .error e { cb with books := cb.books.modify stock fun _ => b } :=
  rfl

/-- A reduction changes the order first, whatever the book does. -/
theorem doReduce_run :
    (doReduce recvts id data book shares).run cb =
      match (OrderBook.handleOrderReduced data.buySellIndicator data.px
        (reducedShares data shares)).run book with
      | .ok _ c =>
          .ok (BookUpdate.ofLevel recvts data.stock data.buySellIndicator data.px
            (int32 (-reducedShares data shares)), c)
            (cb.takeFrom id data (reducedShares data shares) c)
      | .error e c => .error e (cb.takeFrom id data (reducedShares data shares) c) := by
  simp only [doReduce, EStateM.run_bind, EStateM.run_modify, takeFrom, BookUpdate.ofLevel]
  split_ifs
  · simp only [EStateM.run_bind, EStateM.run_modify, updateBook_run]
    cases (OrderBook.handleOrderReduced data.buySellIndicator data.px
      (reducedShares data shares)).run book <;> rfl
  · simp only [EStateM.run_bind, EStateM.run_pure, updateBook_run]
    cases (OrderBook.handleOrderReduced data.buySellIndicator data.px
      (reducedShares data shares)).run book <;> rfl

theorem handleOrderReduction_run {header : MessageHeader} (hfind : cb.orders.find? id = some data)
    (hbook : cb.books.find? data.stock = some book) :
    (handleOrderReduction recvts header id shares).run cb =
      match (OrderBook.handleOrderReduced data.buySellIndicator data.px
        (reducedShares data shares)).run book with
      | .ok _ c =>
          .ok (some ⟨header, c, BookUpdate.ofLevel recvts data.stock data.buySellIndicator data.px
            (int32 (-reducedShares data shares))⟩)
            (cb.takeFrom id data (reducedShares data shares) c)
      | .error e c => .error e (cb.takeFrom id data (reducedShares data shares) c) := by
  simp only [handleOrderReduction, EStateM.run_bind, EStateM.run_get, hfind, hbook, doReduce_run]
  cases (OrderBook.handleOrderReduced data.buySellIndicator data.px
    (reducedShares data shares)).run book <;> rfl

/-- A new order is recorded, and its book found or created, before it is added to the book. -/
theorem handleAddOrder_run {msg : AddOrderMessage κ}
    (hid : cb.orders.find? msg.orderReferenceNumber = none) :
    (handleAddOrder recvts msg).run cb =
      match (OrderBook.handleAddOrder msg.buySellIndicator msg.price msg.shares).run
        (cb.bookOf msg.stock) with
      | .ok _ c =>
          .ok (some ⟨msg.header, c, BookUpdate.ofLevel recvts msg.stock msg.buySellIndicator
            msg.price msg.shares⟩)
            (cb.addTo msg.orderReferenceNumber
              ⟨msg.stock, msg.buySellIndicator, msg.price, msg.shares⟩ c)
      | .error e c =>
          .error e (cb.addTo msg.orderReferenceNumber
            ⟨msg.stock, msg.buySellIndicator, msg.price, msg.shares⟩ c) := by
  simp only [handleAddOrder, EStateM.run_bind, EStateM.run_get, EStateM.run_modify, hid,
    Option.isSome_none, Bool.false_eq_true, if_false, addTo]
  cases hbook : cb.books.find? msg.stock with
  | none =>
      have hb : cb.bookOf msg.stock = OrderBook.make cb.cfg := by
        rw [bookOf, hbook, Option.getD_none]
      simp only [EStateM.run_bind, EStateM.run_modify, EStateM.run_pure, hb, updateBook_run]
      cases (OrderBook.handleAddOrder msg.buySellIndicator msg.price msg.shares).run
        (OrderBook.make cb.cfg) <;> rfl
  | some b =>
      have hb : cb.bookOf msg.stock = b := by
        rw [bookOf, hbook, Option.getD_some]
      simp only [EStateM.run_bind, EStateM.run_pure, UnorderedMap.emplace_of_find? hbook, hb,
        updateBook_run]
      cases (OrderBook.handleAddOrder msg.buySellIndicator msg.price msg.shares).run b <;> rfl

/-- The new order of a replace goes to the book of the old one, once that is out of it. -/
theorem handleOrderReplace_run {msg : OrderReplaceMessage}
    (hfind : cb.orders.find? msg.originalOrderReferenceNumber = some data)
    (hnew : cb.orders.find? msg.newOrderReferenceNumber = none)
    (hbook : cb.books.find? data.stock = some book) :
    (handleOrderReplace recvts msg).run cb =
      match (OrderBook.handleOrderReduced data.buySellIndicator data.px data.qty).run book with
      | .error e b => .error e (cb.takeFrom msg.originalOrderReferenceNumber data data.qty b)
      | .ok _ b =>
          match (OrderBook.handleAddOrder data.buySellIndicator msg.price msg.shares).run b with
          | .ok _ c =>
              .ok (some ⟨msg.header, c, recvts, data.stock, data.buySellIndicator, msg.price,
                msg.shares, true, data.px, int32 (-int32 (-data.qty))⟩)
                ((cb.takeFrom msg.originalOrderReferenceNumber data data.qty b).addTo
                  msg.newOrderReferenceNumber
                  ⟨data.stock, data.buySellIndicator, msg.price, msg.shares⟩ c)
          | .error e c =>
              .error e ((cb.takeFrom msg.originalOrderReferenceNumber data data.qty b).addTo
                msg.newOrderReferenceNumber
                ⟨data.stock, data.buySellIndicator, msg.price, msg.shares⟩ c) := by
  have hhas : cb.books.find? data.stock ≠ none := by
    rw [hbook]
    simp
  -- The reduction keeps the book, so the new order finds it again.
  have hbook' : ∀ b : OrderBook β, (cb.takeFrom msg.originalOrderReferenceNumber data data.qty
      b).books.find? data.stock = some b := fun b => by
    rw [find?_books_takeFrom hhas, if_pos rfl]
  simp only [handleOrderReplace, EStateM.run_bind, EStateM.run_get, hfind, hnew, hbook,
    Option.isSome_none, Bool.false_eq_true, if_false, doReduce_run, reducedShares_zero]
  cases (OrderBook.handleOrderReduced data.buySellIndicator data.px data.qty).run book with
  | error e b => rfl
  | ok _ b =>
      simp only [addTo, UnorderedMap.emplace_of_find? (hbook' b), EStateM.run_modify,
        BookUpdate.ofLevel, updateBook_run]
      cases (OrderBook.handleAddOrder data.buySellIndicator msg.price msg.shares).run b <;> rfl

/-- A duplicate order id leaves everything as it is. -/
theorem handleAddOrder_duplicate {msg : AddOrderMessage κ}
    (h : cb.orders.find? msg.orderReferenceNumber ≠ none) :
    (handleAddOrder recvts msg).run cb = .ok none cb := by
  obtain ⟨data, hid⟩ := Option.ne_none_iff_exists'.1 h
  simp only [handleAddOrder, EStateM.run_bind, EStateM.run_get, EStateM.run_modify, hid,
    UnorderedMap.emplace_of_find? hid]
  rfl

/-- So does an order that is not known. -/
theorem handleOrderReduction_unknown {header : MessageHeader} (h : cb.orders.find? id = none) :
    (handleOrderReduction recvts header id shares).run cb = .ok none cb := by
  simp only [handleOrderReduction, EStateM.run_bind, EStateM.run_get, h]
  rfl

/-- And so does the replace of an order that is not known, or by one that is a duplicate. -/
theorem handleOrderReplace_ignored {msg : OrderReplaceMessage}
    (h : cb.orders.find? msg.originalOrderReferenceNumber = none ∨
      cb.orders.find? msg.newOrderReferenceNumber ≠ none) :
    (handleOrderReplace recvts msg).run cb = .ok none cb := by
  cases hfind : cb.orders.find? msg.originalOrderReferenceNumber with
  | none =>
      simp only [handleOrderReplace, EStateM.run_bind, EStateM.run_get, hfind]
      rfl
  | some data =>
      rcases h with h | h
      · rw [hfind] at h
        cases h
      · obtain ⟨other, hnew⟩ := Option.ne_none_iff_exists'.1 h
        simp only [handleOrderReplace, EStateM.run_bind, EStateM.run_get, hfind, hnew]
        rfl

/-! ## Frame -/

/-- The security that a message is about: the one it names, or that of the live order it names. -/
def namedStock (cb : ComputeBook κ β) : Message κ → Option κ
  | .addOrder msg => some msg.stock
  | .addOrderMpid msg => some msg.stock
  | .orderExecuted msg => (cb.orders.find? msg.orderReferenceNumber).map OrderData.stock
  | .orderExecutedPrice msg => (cb.orders.find? msg.orderReferenceNumber).map OrderData.stock
  | .orderCancel msg => (cb.orders.find? msg.orderReferenceNumber).map OrderData.stock
  | .orderDelete msg => (cb.orders.find? msg.orderReferenceNumber).map OrderData.stock
  | .orderReplace msg => (cb.orders.find? msg.originalOrderReferenceNumber).map OrderData.stock
  | .stockDirectory msg => some msg.stock
  | .other _ => none

variable {stock : κ}

theorem handleAddOrder_frame (cb : ComputeBook κ β) {msg : AddOrderMessage κ}
    (h : stock ≠ msg.stock) :
    (finalState ((handleAddOrder recvts msg).run cb)).books.find? stock = cb.books.find? stock := by
  cases hid : cb.orders.find? msg.orderReferenceNumber with
  | some data =>
      rw [handleAddOrder_duplicate (by simp [hid])]
      rfl
  | none =>
      rw [handleAddOrder_run hid]
      cases (OrderBook.handleAddOrder msg.buySellIndicator msg.price msg.shares).run
        (cb.bookOf msg.stock) with
      | ok _ c => exact (find?_books_addTo ..).trans (if_neg h)
      | error e c => exact (find?_books_addTo ..).trans (if_neg h)

theorem handleOrderReduction_frame (cb : ComputeBook κ β) {header : MessageHeader}
    (h : (cb.orders.find? id).map OrderData.stock ≠ some stock) :
    (finalState ((handleOrderReduction recvts header id shares).run cb)).books.find? stock =
      cb.books.find? stock := by
  cases hfind : cb.orders.find? id with
  | none =>
      rw [handleOrderReduction_unknown hfind]
      rfl
  | some data =>
      have hne : stock ≠ data.stock := by
        rintro rfl
        exact h (by rw [hfind, Option.map_some])
      cases hbook : cb.books.find? data.stock with
      | none =>
          simp only [handleOrderReduction, EStateM.run_bind, EStateM.run_get, hfind, hbook]
          rfl
      | some b =>
          have hhas : cb.books.find? data.stock ≠ none := by simp [hbook]
          rw [handleOrderReduction_run hfind hbook]
          cases (OrderBook.handleOrderReduced data.buySellIndicator data.px
            (reducedShares data shares)).run b with
          | ok _ c => exact (find?_books_takeFrom hhas ..).trans (if_neg hne)
          | error e c => exact (find?_books_takeFrom hhas ..).trans (if_neg hne)

theorem handleOrderReplace_frame (cb : ComputeBook κ β) {msg : OrderReplaceMessage}
    (h : (cb.orders.find? msg.originalOrderReferenceNumber).map OrderData.stock ≠ some stock) :
    (finalState ((handleOrderReplace recvts msg).run cb)).books.find? stock =
      cb.books.find? stock := by
  cases hfind : cb.orders.find? msg.originalOrderReferenceNumber with
  | none =>
      rw [handleOrderReplace_ignored (.inl hfind)]
      rfl
  | some data =>
      have hne : stock ≠ data.stock := by
        rintro rfl
        exact h (by rw [hfind, Option.map_some])
      cases hnew : cb.orders.find? msg.newOrderReferenceNumber with
      | some other =>
          rw [handleOrderReplace_ignored (.inr (by simp [hnew]))]
          rfl
      | none =>
          cases hbook : cb.books.find? data.stock with
          | none =>
              simp only [handleOrderReplace, EStateM.run_bind, EStateM.run_get, hfind, hnew, hbook]
              rfl
          | some book =>
              have hhas : cb.books.find? data.stock ≠ none := by simp [hbook]
              have htake : ∀ b : OrderBook β, (cb.takeFrom msg.originalOrderReferenceNumber data
                  data.qty b).books.find? stock = cb.books.find? stock := fun b =>
                (find?_books_takeFrom hhas ..).trans (if_neg hne)
              rw [handleOrderReplace_run hfind hnew hbook]
              cases (OrderBook.handleOrderReduced data.buySellIndicator data.px data.qty).run
                book with
              | error e b => exact htake b
              | ok _ b =>
                  have hadd := fun c => (find?_books_addTo (cb.takeFrom
                    msg.originalOrderReferenceNumber data data.qty b) msg.newOrderReferenceNumber
                    ⟨data.stock, data.buySellIndicator, msg.price, msg.shares⟩ c stock).trans
                    (if_neg hne)
                  simp only []
                  cases (OrderBook.handleAddOrder data.buySellIndicator msg.price msg.shares).run
                    b with
                  | ok _ c => exact (hadd c).trans (htake b)
                  | error e c => exact (hadd c).trans (htake b)

/-- A message leaves the books of every security alone that it is not about. -/
theorem handleMessage_frame (cb : ComputeBook κ β) (msg : Message κ)
    (h : cb.namedStock msg ≠ some stock) :
    (finalState ((handleMessage recvts msg).run cb)).books.find? stock = cb.books.find? stock := by
  cases msg with
  | addOrder m => exact handleAddOrder_frame cb fun he => h (by rw [he]; rfl)
  | addOrderMpid m => exact handleAddOrder_frame cb fun he => h (by rw [he]; rfl)
  | orderExecuted m => exact handleOrderReduction_frame cb h
  | orderExecutedPrice m => exact handleOrderReduction_frame cb h
  | orderCancel m => exact handleOrderReduction_frame cb h
  | orderDelete m => exact handleOrderReduction_frame cb h
  | orderReplace m => exact handleOrderReplace_frame cb h
  | stockDirectory m =>
      refine (UnorderedMap.find?_emplace ..).trans (if_neg ?_)
      rintro rfl
      exact h rfl
  | other header => rfl

theorem machine_step_state (cb : ComputeBook κ β) (i : Int × Message κ) :
    ((machine κ β).step cb i).2 = finalState ((handleMessage i.1 i.2).run cb) :=
  Machine.ofAction_step_state _ cb i

end Runs

end ComputeBook

end JayBeams.Itch5
