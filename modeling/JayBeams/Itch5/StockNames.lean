import JayBeams.Itch5.SecurityKeys
import JayBeams.Library.Simulation

/-!
# Securities by their names

The keys of `books_` are short string fields, and a model of the books is easier to reason about when
its keys are plain names. Renaming the securities of a feed renames those of the books, of the orders
and of the updates, and changes nothing else (`handleMessage_renamed`), as long as the container
identifies two names exactly when it identifies the securities.

For the fields of the feed and the strings in them this is the case when fields that compare equal
have equal hash codes. Books whose keys are the fields then answer every message as the books whose
keys are the strings do (`books_by_name`), and what is proved for keys with a lawful equality holds
for the fields.
-/

set_option autoImplicit false

namespace JayBeams.Itch5

open Containers Machines Machines.Machine

section Rename

variable {κ μ : Type} (f : κ → μ)

/-- A new order for a renamed security. -/
def AddOrderMessage.mapStock (msg : AddOrderMessage κ) : AddOrderMessage μ :=
  ⟨msg.header, msg.orderReferenceNumber, msg.buySellIndicator, msg.shares, f msg.stock, msg.price⟩

/-- A message about a renamed security. -/
def Message.mapStock : Message κ → Message μ
  | .addOrder msg => .addOrder (msg.mapStock f)
  | .addOrderMpid msg => .addOrderMpid (msg.mapStock f)
  | .orderExecuted msg => .orderExecuted msg
  | .orderExecutedPrice msg => .orderExecutedPrice msg
  | .orderCancel msg => .orderCancel msg
  | .orderDelete msg => .orderDelete msg
  | .orderReplace msg => .orderReplace msg
  | .stockDirectory msg => .stockDirectory ⟨msg.header, f msg.stock⟩
  | .other header => .other header

/-- An order for a renamed security. -/
def OrderData.mapStock (data : OrderData κ) : OrderData μ :=
  ⟨f data.stock, data.buySellIndicator, data.px, data.qty⟩

/-- An update of the book of a renamed security. -/
def BookUpdate.mapStock (u : BookUpdate κ) : BookUpdate μ :=
  ⟨u.recvts, f u.stock, u.buySellIndicator, u.px, u.qty, u.cxlreplx, u.oldpx, u.oldqty⟩

/-- The arguments of the callback about a renamed security. -/
def Callback.mapStock {β : Side → Type} (call : Callback κ β) : Callback μ β :=
  ⟨call.header, call.updatedBook, call.update.mapStock f⟩

end Rename

namespace ComputeBook

variable {κ μ : Type} [BEq κ] [BEq μ] {β : Side → Type} [BookType β] {f : κ → μ} {S : κ → Prop}

/-- The two states differ in the names of the securities alone. -/
structure Renamed (f : κ → μ) (S : κ → Prop) (cb : ComputeBook κ β) (cm : ComputeBook μ β) : Prop where
  books : UnorderedMap.Renamed f (fun book => book) S cb.books cm.books
  orders : UnorderedMap.Renamed (fun i => i) (OrderData.mapStock f) (fun _ => True) cb.orders cm.orders
  stocks : ∀ e ∈ cb.orders.entries, S e.2.stock
  cfg : cm.cfg = cb.cfg

namespace Renamed

variable {cb : ComputeBook κ β} {cm : ComputeBook μ β}

/-- Both have the same orders. -/
theorem find?_order (h : Renamed f S cb cm) (id : UInt64) :
    cm.orders.find? id = (cb.orders.find? id).map (OrderData.mapStock f) :=
  h.orders.find? trivial

/-- The orders are for securities that may occur. -/
theorem stock_of_find? (h : Renamed f S cb cm) {id : UInt64} {data : OrderData κ}
    (hfind : cb.orders.find? id = some data) : S data.stock := by
  rw [UnorderedMap.find?_eq_some_iff] at hfind
  exact h.stocks _ hfind

/-- Both have the same book for a security that may occur. -/
theorem find?_book (h : Renamed f S cb cm) {stock : κ} (hstock : S stock) :
    cm.books.find? (f stock) = cb.books.find? stock := by
  rw [h.books.find? hstock, Option.map_id']

/-- A new order. -/
theorem addOrder (h : Renamed f S cb cm) (id : UInt64) (data : OrderData κ) (hstock : S data.stock) :
    Renamed f S { cb with orders := cb.orders.emplace id data }
      { cm with orders := cm.orders.emplace id (data.mapStock f) } where
  books := h.books
  orders := h.orders.emplace trivial rfl
  stocks e he := by
    cases hfind : cb.orders.find? id with
    | some d =>
        rw [UnorderedMap.emplace_of_find? hfind] at he
        exact h.stocks e he
    | none =>
        rw [UnorderedMap.entries_emplace hfind, List.mem_append, List.mem_singleton] at he
        rcases he with he | rfl
        · exact h.stocks e he
        · exact hstock
  cfg := h.cfg

/-- A book for a security that has none. -/
theorem addBook (h : Renamed f S cb cm) {stock : κ} (hstock : S stock) :
    Renamed f S { cb with books := cb.books.emplace stock (OrderBook.make cb.cfg) }
      { cm with books := cm.books.emplace (f stock) (OrderBook.make cm.cfg) } where
  books := h.books.emplace hstock (by rw [h.cfg])
  orders := h.orders
  stocks := h.stocks
  cfg := h.cfg

/-- Another book for a security that has one. -/
theorem setBook (h : Renamed f S cb cm) {stock : κ} (hstock : S stock) (book : OrderBook β) :
    Renamed f S { cb with books := cb.books.modify stock fun _ => book }
      { cm with books := cm.books.modify (f stock) fun _ => book } where
  books := by
    have hset : UnorderedMap.Renamed f (fun book => book) S (cb.books.modify stock fun _ => book)
      (cm.books.modify (f stock) fun _ => book) := h.books.modify hstock fun _ => rfl
    exact hset
  orders := h.orders
  stocks := h.stocks
  cfg := h.cfg

/-- A change of the quantity of an order. -/
theorem setQty (h : Renamed f S cb cm) (id : UInt64) (qty : Int → Int) :
    Renamed f S
      { cb with orders := cb.orders.modify id fun data => { data with qty := qty data.qty } }
      { cm with orders := cm.orders.modify id fun data => { data with qty := qty data.qty } } where
  books := h.books
  orders := by
    have hset : UnorderedMap.Renamed (fun i => i) (OrderData.mapStock f) (fun _ => True)
      (cb.orders.modify id fun data => { data with qty := qty data.qty })
      (cm.orders.modify id fun data => { data with qty := qty data.qty }) :=
      h.orders.modify trivial fun _ => rfl
    exact hset
  stocks e he := by
    obtain ⟨e', he', rfl⟩ := List.mem_map.1 he
    split
    · exact h.stocks e' he'
    · exact h.stocks e' he'
  cfg := h.cfg

/-- A finished order. -/
theorem eraseOrder (h : Renamed f S cb cm) (id : UInt64) :
    Renamed f S { cb with orders := cb.orders.erase id } { cm with orders := cm.orders.erase id } where
  books := h.books
  orders := h.orders.erase trivial
  stocks e he := h.stocks e (List.mem_of_mem_filter he)
  cfg := h.cfg

end Renamed

/-! ## One message -/

/-- The same callback, about the renamed security. -/
def SameCalls (f : κ → μ) (a : Option (Callback κ β)) (b : Option (Callback μ β)) : Prop :=
  b = a.map (Callback.mapStock f)

/-- The same book is stored under both names. -/
theorem updateBook_renamed {stock : κ} (hstock : S stock) (book : OrderBook β)
    (act : EStateM Failure (OrderBook β) Bool) :
    Simulates id (Renamed f S) Eq (updateBook stock book act) (updateBook (f stock) book act) := by
  constructor
  intro cb cm h
  simp only [EStateM.run, updateBook]
  cases act book with
  | ok r b => exact ⟨rfl, h.setBook hstock b⟩
  | error e b => exact ⟨rfl, h.setBook hstock b⟩

variable {recvts : Int}

/-- New orders are handled alike. -/
theorem handleAddOrder_renamed {msg : AddOrderMessage κ} (hstock : S msg.stock) :
    Simulates id (Renamed f S) (SameCalls f) (handleAddOrder (β := β) recvts msg)
      (handleAddOrder recvts (msg.mapStock f)) := by
  apply Simulates.bind Simulates.get
  intro cb cm h
  have hupdate (book : OrderBook β) : Simulates id (Renamed f S) (SameCalls f)
      (do
        let book ← updateBook msg.stock book
          (OrderBook.handleAddOrder msg.buySellIndicator msg.price msg.shares)
        return some ⟨msg.header, book,
          BookUpdate.ofLevel recvts msg.stock msg.buySellIndicator msg.price msg.shares⟩)
      (do
        let book ← updateBook (f msg.stock) book
          (OrderBook.handleAddOrder msg.buySellIndicator msg.price msg.shares)
        return some ⟨msg.header, book,
          BookUpdate.ofLevel recvts (f msg.stock) msg.buySellIndicator msg.price msg.shares⟩) := by
    apply Simulates.bind (updateBook_renamed hstock book _)
    rintro a _ rfl
    exact Simulates.pure rfl
  apply Simulates.bind (Simulates.modify fun cb cm h => h.addOrder msg.orderReferenceNumber
    ⟨msg.stock, msg.buySellIndicator, msg.price, msg.shares⟩ hstock)
  intro _ _ _
  have hknown : (cm.orders.find? (msg.mapStock f).orderReferenceNumber).isSome =
      (cb.orders.find? msg.orderReferenceNumber).isSome := by
    rw [show (msg.mapStock f).orderReferenceNumber = msg.orderReferenceNumber from rfl,
      h.find?_order, Option.isSome_map]
  rw [hknown]
  split
  · exact Simulates.pure rfl
  · rw [show (msg.mapStock f).stock = f msg.stock from rfl, h.find?_book hstock]
    cases cb.books.find? msg.stock with
    | some book =>
        apply Simulates.bind (V := Eq) (Simulates.pure rfl)
        rintro book _ rfl
        exact hupdate book
    | none =>
        apply Simulates.bind (Simulates.modify fun cb cm h => h.addBook hstock)
        intro _ _ _
        apply Simulates.bind (V := Eq) (Simulates.pure (by rw [h.cfg]))
        rintro book _ rfl
        exact hupdate book

/-- The update and the book that `do_reduce` gives. -/
def SameReduction (f : κ → μ) (S : κ → Prop) (a : BookUpdate κ × OrderBook β)
    (b : BookUpdate μ × OrderBook β) : Prop :=
  S a.1.stock ∧ b = (a.1.mapStock f, a.2)

/-- Reductions have the same updates and books. -/
theorem doReduce_renamed (orderId : UInt64) {data : OrderData κ} (hstock : S data.stock)
    (book : OrderBook β) (shares : UInt32) :
    Simulates id (Renamed f S) (SameReduction f S) (doReduce recvts orderId data book shares)
      (doReduce recvts orderId (data.mapStock f) book shares) := by
  have hrest : Simulates id (Renamed f S) (SameReduction f S)
      (do
        let u := BookUpdate.ofLevel recvts data.stock data.buySellIndicator data.px
          (int32 (-reducedShares data shares))
        let book ← updateBook data.stock book
          (OrderBook.handleOrderReduced u.buySellIndicator u.px (reducedShares data shares))
        return (u, book))
      (do
        let u := BookUpdate.ofLevel recvts (f data.stock) data.buySellIndicator data.px
          (int32 (-reducedShares data shares))
        let book ← updateBook (f data.stock) book
          (OrderBook.handleOrderReduced u.buySellIndicator u.px (reducedShares data shares))
        return (u, book)) := by
    apply Simulates.bind (updateBook_renamed hstock book _)
    rintro a _ rfl
    exact Simulates.pure ⟨hstock, rfl⟩
  apply Simulates.bind
    (Simulates.modify fun cb cm h => h.setQty orderId fun q => int32 (q - reducedShares data shares))
  intro _ _ _
  show Simulates id (Renamed f S) (SameReduction f S)
    (if int32 (data.qty - reducedShares data shares) = 0 then _ else _)
    (if int32 (data.qty - reducedShares data shares) = 0 then _ else _)
  split
  · apply Simulates.bind (Simulates.modify fun cb cm h => h.eraseOrder orderId)
    intro _ _ _
    exact hrest
  · exact hrest

/-- Executions, cancellations and deletions are handled alike. -/
theorem handleOrderReduction_renamed (header : MessageHeader) (orderId : UInt64) (shares : UInt32) :
    Simulates id (Renamed f S) (SameCalls f)
      (handleOrderReduction (β := β) recvts header orderId shares)
      (handleOrderReduction recvts header orderId shares) := by
  apply Simulates.bind Simulates.get
  intro cb cm h
  rw [h.find?_order]
  cases hfind : cb.orders.find? orderId with
  | none => exact Simulates.pure rfl
  | some data =>
      have hstock : S data.stock := h.stock_of_find? hfind
      simp only [Option.map_some]
      rw [show (data.mapStock f).stock = f data.stock from rfl, h.find?_book hstock]
      cases cb.books.find? data.stock with
      | none => exact Simulates.throw rfl
      | some book =>
          apply Simulates.bind (doReduce_renamed orderId hstock book shares)
          rintro a _ ⟨-, rfl⟩
          exact Simulates.pure rfl

/-- Replacements are handled alike. -/
theorem handleOrderReplace_renamed (msg : OrderReplaceMessage) :
    Simulates id (Renamed f S) (SameCalls f) (handleOrderReplace (β := β) recvts msg)
      (handleOrderReplace recvts msg) := by
  apply Simulates.bind Simulates.get
  intro cb cm h
  rw [h.find?_order, h.find?_order, Option.isSome_map]
  cases hfind : cb.orders.find? msg.originalOrderReferenceNumber with
  | none => exact Simulates.pure rfl
  | some data =>
      have hstock : S data.stock := h.stock_of_find? hfind
      simp only [Option.map_some]
      split
      · exact Simulates.pure rfl
      · rw [show (data.mapStock f).stock = f data.stock from rfl, h.find?_book hstock]
        cases cb.books.find? data.stock with
        | none => exact Simulates.throw rfl
        | some book =>
            apply Simulates.bind
              (doReduce_renamed msg.originalOrderReferenceNumber hstock book 0)
            rintro ⟨update, book⟩ _ ⟨hupdate, rfl⟩
            apply Simulates.bind (Simulates.modify fun cb cm h =>
              h.addOrder msg.newOrderReferenceNumber
                ⟨update.stock, update.buySellIndicator, msg.price, msg.shares⟩ hupdate)
            intro _ _ _
            apply Simulates.bind (updateBook_renamed hstock book _)
            rintro a _ rfl
            exact Simulates.pure rfl

/-- A message about renamed securities is handled as the message is. -/
theorem handleMessage_renamed {msg : Message κ} (hstock : ∀ k, msg.stock? = some k → S k) :
    Simulates id (Renamed f S) (SameCalls f) (handleMessage (β := β) recvts msg)
      (handleMessage recvts (msg.mapStock f)) := by
  cases msg with
  | addOrder m => exact handleAddOrder_renamed (hstock _ rfl)
  | addOrderMpid m => exact handleAddOrder_renamed (hstock _ rfl)
  | orderExecuted m => exact handleOrderReduction_renamed _ _ _
  | orderExecutedPrice m => exact handleOrderReduction_renamed _ _ _
  | orderCancel m => exact handleOrderReduction_renamed _ _ _
  | orderDelete m => exact handleOrderReduction_renamed _ _ _
  | orderReplace m => exact handleOrderReplace_renamed m
  | stockDirectory m =>
      apply Simulates.bind (Simulates.modify fun cb cm h => h.addBook (hstock _ rfl))
      intro _ _ _
      exact Simulates.pure rfl
  | other header => exact Simulates.pure rfl

/-! ## Runs -/

/-- The message of a feed, about the renamed security. -/
def renameInput (f : κ → μ) (i : Int × Message κ) : Int × Message μ := (i.1, i.2.mapStock f)

/-- A message has the same answer, up to the names, and keeps the states alike. -/
theorem step_renamed {cb : ComputeBook κ β} {cm : ComputeBook μ β} (h : Renamed f S cb cm)
    {i : Int × Message κ} (hstock : ∀ k, i.2.stock? = some k → S k) :
    ((machine μ β).step cm (renameInput f i)).1 =
        ((machine κ β).step cb i).1.map (Option.map (Callback.mapStock f)) ∧
      Renamed f S ((machine κ β).step cb i).2 ((machine μ β).step cm (renameInput f i)).2 := by
  have hmsg : Simulates id (Renamed f S) (SameCalls f) (handleMessage (β := β) i.1 i.2)
    (handleMessage i.1 (i.2.mapStock f)) := handleMessage_renamed hstock
  have hends := hmsg.ends cb cm h
  simp only [machine, ofAction, renameInput]
  cases hk : (handleMessage i.1 i.2).run cb with
  | ok a cb' =>
      cases hm : (handleMessage i.1 (i.2.mapStock f)).run cm with
      | ok b cm' =>
          rw [hk, hm] at hends
          exact ⟨congrArg Except.ok hends.1, hends.2⟩
      | error e cm' =>
          rw [hk, hm] at hends
          exact hends.elim
  | error e cb' =>
      cases hm : (handleMessage i.1 (i.2.mapStock f)).run cm with
      | ok b cm' =>
          rw [hk, hm] at hends
          exact hends.elim
      | error e' cm' =>
          rw [hk, hm] at hends
          exact ⟨congrArg Except.error hends.1.symm, hends.2⟩

/-- Renaming the securities of a feed renames those of the answers and of the books. -/
theorem run_renamed {cb : ComputeBook κ β} {cm : ComputeBook μ β} (h : Renamed f S cb cm)
    {msgs : List (Int × Message κ)} (hstocks : ∀ i ∈ msgs, ∀ k, i.2.stock? = some k → S k) :
    ((machine μ β).run cm (msgs.map (renameInput f))).1 =
        ((machine κ β).run cb msgs).1.map (Except.map (Option.map (Callback.mapStock f))) ∧
      Renamed f S ((machine κ β).run cb msgs).2 ((machine μ β).run cm (msgs.map (renameInput f))).2 := by
  induction msgs generalizing cb cm with
  | nil => exact ⟨rfl, h⟩
  | cons i msgs ih =>
      rw [List.forall_mem_cons] at hstocks
      obtain ⟨hanswer, hnext⟩ := step_renamed h hstocks.1
      obtain ⟨hanswers, hend⟩ := ih hnext hstocks.2
      exact ⟨congr (congrArg List.cons hanswer) hanswers, hend⟩

/-- The two start alike when their containers identify the same securities. -/
theorem renamed_make {hash : κ → UInt64} {hash' : μ → UInt64} (cfg : BookType.Config β)
    (h : ∀ a b, S a → S b → sameKey hash' (f a) (f b) = sameKey hash a b) :
    Renamed f S (make hash cfg : ComputeBook κ β) (make hash' cfg) where
  books := .empty h
  orders := .empty fun _ _ _ _ => rfl
  stocks _ he := absurd he List.not_mem_nil
  cfg := rfl

end ComputeBook

/-! ## The fields of a feed -/

/-- The name of a security: a string -/
structure Name where
  chars : List UInt8
  deriving DecidableEq, Repr

deriving instance DecidableEq for AddOrderMessage, OrderExecutedMessage, OrderCancelMessage,
  OrderDeleteMessage, OrderReplaceMessage, StockDirectoryMessage, Message

namespace ShortStringField

open ComputeBook

variable {wireSize : Nat} {β : Side → Type} [BookType β]

/-- The string in the field of a security -/
def name (x : ShortStringField wireSize) : Name := ⟨x.cStr⟩

/-- Two fields have the same name when they compare equal. -/
theorem name_eq_iff (a b : ShortStringField wireSize) : a.name = b.name ↔ (a == b) = true := by
  rw [name, name, Name.mk.injEq, beq_iff]

/-- Among fields whose hash codes agree when they compare equal, a container that holds the strings
identifies what one that holds the fields does. -/
theorem sameKey_name {hashRange : List UInt8 → UInt64} {hashName : Name → UInt64}
    {a b : ShortStringField wireSize}
    (h : (a == b) = true → hashValue hashRange a = hashValue hashRange b) :
    sameKey hashName a.name b.name = sameKey (hashValue hashRange) a b := by
  have hfields : sameKey (hashValue hashRange) a b = true ↔ (a == b) = true := by
    rw [sameKey, Bool.and_eq_true, beq_iff_eq]
    exact ⟨fun hab => hab.2, fun hab => ⟨h hab, hab⟩⟩
  rw [Bool.eq_iff_iff, UnorderedMap.sameKey_iff, name_eq_iff, hfields]

/-- Books whose keys are the fields of a feed, and books whose keys are the strings in them, answer
every message alike. They are for the same securities, each with one name, and the book that is found
for a field is the one for its name. -/
theorem books_by_name (hashRange : List UInt8 → UInt64) (hashName : Name → UInt64)
    (cfg : BookType.Config β) (msgs : List (Int × Message (ShortStringField wireSize)))
    (hhash : ∀ a ∈ stocks msgs, ∀ b ∈ stocks msgs,
      (a == b) = true → hashValue hashRange a = hashValue hashRange b) :
    let byField := (machine _ β).run (make (hashValue hashRange) cfg) msgs
    let byName := (machine _ β).run (make hashName cfg) (msgs.map (renameInput name))
    byName.1 = byField.1.map (Except.map (Option.map (Callback.mapStock name))) ∧
      byName.2.symbols = byField.2.symbols.map name ∧ byName.2.symbols.Nodup ∧
      ∀ stock ∈ stocks msgs, byName.2.books.find? stock.name = byField.2.books.find? stock := by
  have hstocks : ∀ i ∈ msgs, ∀ k, i.2.stock? = some k → k ∈ stocks msgs :=
    fun i hi k hk => List.mem_filterMap.2 ⟨i, hi, hk⟩
  have hinit : Renamed name (· ∈ stocks msgs) (make (hashValue hashRange) cfg : ComputeBook _ β)
      (make hashName cfg) :=
    renamed_make cfg fun a b ha hb => sameKey_name (hhash a ha b hb)
  obtain ⟨hanswers, hend⟩ := run_renamed hinit hstocks
  refine ⟨hanswers, hend.books.keys, ?_, fun stock hstock => hend.find?_book hstock⟩
  refine (UnorderedMap.pairwise_keys _).imp fun {a b} hab => ?_
  exact (UnorderedMap.sameKey_eq_false_iff _ a b).1 hab

/-- A security that is listed under a string and traded under the field of a message. -/
def listedAndTraded (padding : List UInt8) : List (Int × Message (ShortStringField 8)) :=
  [directory fromString,
    (1, .addOrder ⟨⟨65, 0, 0, 0⟩, 1, .buy, 100, fromWire padding, 100000⟩)]

/-- A hash function for sequences of bytes. -/
def hashSum (bytes : List UInt8) : UInt64 :=
  bytes.foldl (fun h byte => UInt64.ofNat (h.toNat + byte.toNat)) 0

/-- Padded with NULs on the wire, the security has one book. -/
theorem books_by_name_nul_padded :
    ((machine _ MapBasedBookSide).run (make (fun x => hashSum x.chars) ())
        ((listedAndTraded [0, 0, 0]).map (renameInput name))).2.symbols =
      ((machine _ MapBasedBookSide).run (make (hashValue hashSum) ())
        (listedAndTraded [0, 0, 0])).2.symbols.map name :=
  (books_by_name (β := MapBasedBookSide) hashSum (fun x => hashSum x.chars) ()
    (listedAndTraded [0, 0, 0]) (by decide)).2.1

end ShortStringField

end JayBeams.Itch5
