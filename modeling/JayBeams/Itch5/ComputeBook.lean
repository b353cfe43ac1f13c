import JayBeams.Itch5.MessageHeader
import JayBeams.Itch5.OrderBook
import JayBeams.Library.Machine
import JayBeams.Library.UnorderedMap

/-!
# Building the books

`compute_book` keeps one order book for each security and the live orders by their reference number.
Each message of the feed that changes an order updates both, and the user-defined callback is invoked
with the header of the message, the book after the update and a description of the update. In the
model, handling a message returns what the callback was invoked with, if it was.

The type of the securities is a parameter, with the hash function that `books_` uses.
-/

set_option autoImplicit false

namespace JayBeams.Itch5

open Containers Machines

/-! ## Messages -/

/-- `add_order_message` -/
structure AddOrderMessage (κ : Type) where
  header : MessageHeader
  orderReferenceNumber : UInt64
  buySellIndicator : Side
  shares : Int
  stock : κ
  price : Nat

/-- `order_executed_message` -/
structure OrderExecutedMessage where
  header : MessageHeader
  orderReferenceNumber : UInt64
  executedShares : UInt32

/-- `order_cancel_message` -/
structure OrderCancelMessage where
  header : MessageHeader
  orderReferenceNumber : UInt64
  canceledShares : UInt32

/-- `order_delete_message` -/
structure OrderDeleteMessage where
  header : MessageHeader
  orderReferenceNumber : UInt64

/-- `order_replace_message` -/
structure OrderReplaceMessage where
  header : MessageHeader
  originalOrderReferenceNumber : UInt64
  newOrderReferenceNumber : UInt64
  shares : Int
  price : Nat

/-- `stock_directory_message` -/
structure StockDirectoryMessage (κ : Type) where
  header : MessageHeader
  stock : κ

/-- The messages of the feed. -/
inductive Message (κ : Type) where
  | addOrder (msg : AddOrderMessage κ)
  | addOrderMpid (msg : AddOrderMessage κ)
  | orderExecuted (msg : OrderExecutedMessage)
  | orderExecutedPrice (msg : OrderExecutedMessage)
  | orderCancel (msg : OrderCancelMessage)
  | orderDelete (msg : OrderDeleteMessage)
  | orderReplace (msg : OrderReplaceMessage)
  | stockDirectory (msg : StockDirectoryMessage κ)
  | other (header : MessageHeader)

namespace Message

variable {κ : Type}

/-- The new order of an `add_order` message, with or without MPID. -/
def newOrder? : Message κ → Option (AddOrderMessage κ)
  | addOrder msg => some msg
  | addOrderMpid msg => some msg
  | _ => none

/-- The header, the order and the shares of a message that reduces an order, 0 for all of them. -/
def reduction? : Message κ → Option (MessageHeader × UInt64 × UInt32)
  | orderExecuted msg => some (msg.header, msg.orderReferenceNumber, msg.executedShares)
  | orderExecutedPrice msg => some (msg.header, msg.orderReferenceNumber, msg.executedShares)
  | orderCancel msg => some (msg.header, msg.orderReferenceNumber, msg.canceledShares)
  | orderDelete msg => some (msg.header, msg.orderReferenceNumber, 0)
  | _ => none

/-- Every share count of the message is positive and fits in an `int`. -/
def SharesInRange : Message κ → Prop
  | addOrder msg => 0 < msg.shares ∧ FitsInt msg.shares
  | addOrderMpid msg => 0 < msg.shares ∧ FitsInt msg.shares
  | orderExecuted msg => 0 < msg.executedShares ∧ msg.executedShares.toNat < 2147483648
  | orderExecutedPrice msg => 0 < msg.executedShares ∧ msg.executedShares.toNat < 2147483648
  | orderCancel msg => 0 < msg.canceledShares ∧ msg.canceledShares.toNat < 2147483648
  | orderReplace msg => 0 < msg.shares ∧ FitsInt msg.shares
  | _ => True

/-- The price of the message, if it has one, satisfies `P`. -/
def PriceIn (P : Nat → Prop) : Message κ → Prop
  | addOrder msg => P msg.price
  | addOrderMpid msg => P msg.price
  | orderReplace msg => P msg.price
  | _ => True

theorem SharesInRange.of_newOrder {msg : Message κ} {m : AddOrderMessage κ} (h : msg.SharesInRange)
    (hm : msg.newOrder? = some m) : 0 < m.shares ∧ FitsInt m.shares := by
  cases msg <;> simp only [newOrder?, Option.some.injEq, reduceCtorEq] at hm
  · exact hm ▸ h
  · exact hm ▸ h

theorem PriceIn.of_newOrder {P : Nat → Prop} {msg : Message κ} {m : AddOrderMessage κ}
    (h : msg.PriceIn P) (hm : msg.newOrder? = some m) : P m.price := by
  cases msg <;> simp only [newOrder?, Option.some.injEq, reduceCtorEq] at hm
  · exact hm ▸ h
  · exact hm ▸ h

end Message

/-! ## State -/

/-- `book_update` -/
structure BookUpdate (κ : Type) where
  recvts : Int
  stock : κ
  buySellIndicator : Side
  px : Nat
  qty : Int
  cxlreplx : Bool
  oldpx : Nat
  oldqty : Int
  deriving DecidableEq, Repr

/-- `book_update{recvts, stock, buy_sell_indicator, px, qty}`, with the other members zero. -/
def BookUpdate.ofLevel {κ : Type} (recvts : Int) (stock : κ) (side : Side) (px : Nat) (qty : Int) :
    BookUpdate κ :=
  ⟨recvts, stock, side, px, qty, false, 0, 0⟩

/-- `order_data` -/
structure OrderData (κ : Type) where
  stock : κ
  buySellIndicator : Side
  px : Nat
  qty : Int
  deriving DecidableEq, Repr

/-- What the callback is invoked with. -/
structure Callback (κ : Type) (β : Side → Type) where
  header : MessageHeader
  updatedBook : OrderBook β
  update : BookUpdate κ

/-- `compute_book` -/
structure ComputeBook (κ : Type) (β : Side → Type) [BEq κ] [BookType β] where
  books : UnorderedMap κ (OrderBook β)
  orders : UnorderedMap UInt64 (OrderData κ)
  cfg : BookType.Config β

namespace ComputeBook

variable {κ : Type} {β : Side → Type} [BEq κ] [BookType β]

/-- The constructor -/
def make (hashValue : κ → UInt64) (cfg : BookType.Config β) : ComputeBook κ β where
  books := UnorderedMap.empty hashValue
  orders := UnorderedMap.empty fun id => id
  cfg := cfg

/-- `symbols` -/
def symbols (self : ComputeBook κ β) : List κ := self.books.keys

/-! ## Handling messages -/

/-- Run an operation on a book of `books_`, and return the book as it is afterwards. -/
def updateBook (stock : κ) (book : OrderBook β) (act : EStateM Failure (OrderBook β) Bool) :
    EStateM Failure (ComputeBook κ β) (OrderBook β) := fun self =>
  match act.run book with
  | .ok _ b => .ok b { self with books := self.books.modify stock fun _ => b }
  | .error e b => .error e { self with books := self.books.modify stock fun _ => b }

/-- `handle_message(add_order_message)` -/
def handleAddOrder (recvts : Int) (msg : AddOrderMessage κ) :
    EStateM Failure (ComputeBook κ β) (Option (Callback κ β)) := do
  let self ← get
  modify fun self =>
    { self with
      orders := self.orders.emplace msg.orderReferenceNumber
        ⟨msg.stock, msg.buySellIndicator, msg.price, msg.shares⟩ }
  -- a duplicate order id is logged
  if (self.orders.find? msg.orderReferenceNumber).isSome then return none
  -- find the right book for this order, create one if necessary
  let book ← match self.books.find? msg.stock with
    | some book => pure book
    | none => do
        modify fun self =>
          { self with books := self.books.emplace msg.stock (OrderBook.make self.cfg) }
        pure (OrderBook.make self.cfg)
  let book ← updateBook msg.stock book
    (OrderBook.handleAddOrder msg.buySellIndicator msg.price msg.shares)
  return some ⟨msg.header, book,
    BookUpdate.ofLevel recvts msg.stock msg.buySellIndicator msg.price msg.shares⟩

/-- The shares that `do_reduce` takes away: all of the order for 0, and never more than it has. -/
def reducedShares (data : OrderData κ) (shares : UInt32) : Int :=
  let qty := if shares = 0 then data.qty else int32 shares.toNat
  if data.qty < qty then data.qty else qty

/-- `do_reduce`; it returns the book as well, which the source passes by reference. -/
def doReduce (recvts : Int) (id : UInt64) (data : OrderData κ) (book : OrderBook β)
    (shares : UInt32) : EStateM Failure (ComputeBook κ β) (BookUpdate κ × OrderBook β) := do
  let qty := reducedShares data shares
  modify fun self =>
    { self with orders := self.orders.modify id fun data => { data with qty := int32 (data.qty - qty) } }
  let u := BookUpdate.ofLevel recvts data.stock data.buySellIndicator data.px (int32 (-qty))
  -- if the order is finished we need to remove it
  if int32 (data.qty - qty) = 0 then
    modify fun self => { self with orders := self.orders.erase id }
  let book ← updateBook data.stock book (OrderBook.handleOrderReduced u.buySellIndicator u.px qty)
  return (u, book)

/-- `handle_order_reduction` -/
def handleOrderReduction (recvts : Int) (header : MessageHeader) (id : UInt64) (shares : UInt32) :
    EStateM Failure (ComputeBook κ β) (Option (Callback κ β)) := do
  let self ← get
  match self.orders.find? id with
  -- an unknown order is logged
  | none => return none
  | some data =>
      match self.books.find? data.stock with
      | none => throw (.assertion "itbook != books_.end()")
      | some book => do
          let (u, book) ← doReduce recvts id data book shares
          return some ⟨header, book, u⟩

/-- `handle_message(order_replace_message)` -/
def handleOrderReplace (recvts : Int) (msg : OrderReplaceMessage) :
    EStateM Failure (ComputeBook κ β) (Option (Callback κ β)) := do
  let self ← get
  match self.orders.find? msg.originalOrderReferenceNumber with
  -- an unknown order is logged
  | none => return none
  | some data =>
      -- and so is a duplicate of the new order
      if (self.orders.find? msg.newOrderReferenceNumber).isSome then return none
      match self.books.find? data.stock with
      | none => throw (.assertion "itbook != books_.end()")
      | some book => do
          let (update, book) ← doReduce recvts msg.originalOrderReferenceNumber data book 0
          modify fun self =>
            { self with
              orders := self.orders.emplace msg.newOrderReferenceNumber
                ⟨update.stock, update.buySellIndicator, msg.price, msg.shares⟩ }
          let book ← updateBook data.stock book
            (OrderBook.handleAddOrder update.buySellIndicator msg.price msg.shares)
          return some ⟨msg.header, book,
            { update with
              cxlreplx := true
              oldpx := update.px
              oldqty := int32 (-update.qty)
              px := msg.price
              qty := msg.shares }⟩

/-- `handle_message(stock_directory_message)` -/
def handleStockDirectory (msg : StockDirectoryMessage κ) :
    EStateM Failure (ComputeBook κ β) (Option (Callback κ β)) := do
  modify fun self => { self with books := self.books.emplace msg.stock (OrderBook.make self.cfg) }
  return none

/-- `handle_message` -/
def handleMessage (recvts : Int) : Message κ →
    EStateM Failure (ComputeBook κ β) (Option (Callback κ β))
  | .addOrder msg => handleAddOrder recvts msg
  | .addOrderMpid msg => handleAddOrder recvts msg
  | .orderExecuted msg =>
      handleOrderReduction recvts msg.header msg.orderReferenceNumber msg.executedShares
  | .orderExecutedPrice msg =>
      handleOrderReduction recvts msg.header msg.orderReferenceNumber msg.executedShares
  | .orderCancel msg =>
      handleOrderReduction recvts msg.header msg.orderReferenceNumber msg.canceledShares
  | .orderDelete msg => handleOrderReduction recvts msg.header msg.orderReferenceNumber 0
  | .orderReplace msg => handleOrderReplace recvts msg
  | .stockDirectory msg => handleStockDirectory msg
  | .other _ => return none

/-- The books as a machine: it handles one message at a time, received at some moment. -/
def machine (κ : Type) (β : Side → Type) [BEq κ] [BookType β] :
    Machine (ComputeBook κ β) (Int × Message κ) (Except Failure (Option (Callback κ β))) :=
  Machine.ofAction fun i => handleMessage i.1 i.2

end ComputeBook

end JayBeams.Itch5
