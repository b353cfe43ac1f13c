import JayBeams.Itch5.ComputeBook
import JayBeams.Itch5.ProcessIostream
import JayBeams.Library.Triples

/-!
# Books from a feed

`compute_book` as the handler of a feed: the messages that the dispatch decodes are handled by the
books, and the user-defined callback is invoked with what comes of them. The clock and the callback
work on a state of their own.

`handleRecords` is the meaning of a feed on its own, a list of messages as their bytes: each is decoded
and handled, up to the first that raises. A message that decides how it is decoded (`Decisive`) is
handled so wherever it comes from: at any time, with any number and offset in the feed, and from any
memory that it starts (`handle_simulates`). A callback that does not look at the time of receipt
(`TimeBlind`) then does the same in all of them.
-/

set_option autoImplicit false

namespace JayBeams.Itch5

open Bytes Containers Machines Machines.Machine MoldUdpPacket

/-! ## Messages -/

/-- The header of a message. -/
def Wire.Message.header : Wire.Message → MessageHeader
  | .addOrder msg => msg.header
  | .addOrderMpid msg => msg.header
  | .brokenTrade msg => msg.header
  | .crossTrade msg => msg.header
  | .ipoQuotingPeriodUpdate msg => msg.header
  | .marketParticipantPosition msg => msg.header
  | .mwcbBreach msg => msg.header
  | .mwcbDeclineLevel msg => msg.header
  | .netOrderImbalanceIndicator msg => msg.header
  | .orderCancel msg => msg.header
  | .orderDelete msg => msg.header
  | .orderExecuted msg => msg.header
  | .orderExecutedPrice msg => msg.header
  | .orderReplace msg => msg.header
  | .regShoRestriction msg => msg.header
  | .stockDirectory msg => msg.header
  | .stockTradingAction msg => msg.header
  | .systemEvent msg => msg.header
  | .trade msg => msg.header

/-- The side that `side == buy_sell_indicator_t('B')` tells apart. -/
def Side.ofIndicator (x : CharListField Wire.buySellIndicatorT) : Side :=
  if x.asInt = 'B'.toNat then .buy else .sell

/-- The new order of an `add_order_message`. -/
def AddOrderMessage.ofWire (msg : Wire.AddOrderMessage) : AddOrderMessage Wire.StockT :=
  ⟨msg.header, msg.orderReferenceNumber, .ofIndicator msg.buySellIndicator, msg.shares, msg.stock,
    msg.price⟩

/-- The execution of an `order_executed_message`. -/
def OrderExecutedMessage.ofWire (msg : Wire.OrderExecutedMessage) : OrderExecutedMessage :=
  ⟨msg.header, msg.orderReferenceNumber, msg.executedShares⟩

/-- A message as the overloads of `handle_message` take it. The messages with an MPID or with a price
of the execution are passed on as those without, and there is one overload for the messages that do
not change a book. -/
def Message.ofWire : Wire.Message → Message Wire.StockT
  | .addOrder msg => .addOrder (.ofWire msg)
  | .addOrderMpid msg => .addOrderMpid (.ofWire msg.toAddOrderMessage)
  | .orderExecuted msg => .orderExecuted (.ofWire msg)
  | .orderExecutedPrice msg => .orderExecutedPrice (.ofWire msg.toOrderExecutedMessage)
  | .orderCancel msg => .orderCancel ⟨msg.header, msg.orderReferenceNumber, msg.canceledShares⟩
  | .orderDelete msg => .orderDelete ⟨msg.header, msg.orderReferenceNumber⟩
  | .orderReplace msg =>
      .orderReplace ⟨msg.header, msg.originalOrderReferenceNumber, msg.newOrderReferenceNumber,
        msg.shares, msg.price⟩
  | .stockDirectory msg => .stockDirectory ⟨msg.header, msg.stock⟩
  | msg => .other msg.header

/-- The header of a message -/
def Message.header {κ : Type} : Message κ → MessageHeader
  | .addOrder msg => msg.header
  | .addOrderMpid msg => msg.header
  | .orderExecuted msg => msg.header
  | .orderExecutedPrice msg => msg.header
  | .orderCancel msg => msg.header
  | .orderDelete msg => msg.header
  | .orderReplace msg => msg.header
  | .stockDirectory msg => msg.header
  | .other header => header

/-! ## The handler -/

namespace ComputeBook

variable {β : Side → Type} [BookType β] {χ ρ υ : Type}

/-- `compute_book` as a message handler, with the clock and the callback of the program. -/
def messageHandler (now : EStateM Failure υ Int)
    (callback : Callback Wire.StockT β → EStateM Failure υ Unit) :
    MessageHandler (ComputeBook Wire.StockT β × υ) Int where
  now := onSnd now
  handle := fun call => do
    match call with
    -- an unknown message is logged
    | .handleUnknown _ _ => return ()
    | .handleMessage recvTs _ _ msg =>
        let called ← onFst (handleMessage recvTs (.ofWire msg))
        match called with
        | some call => onSnd (callback call)
        | none => return ()

/-- Decode the message in a buffer and handle it. -/
def handleBuffer (callback : Callback Wire.StockT β → EStateM Failure υ Unit) (recvTs : Int)
    (msgcnt : UInt64) (msgoffset : Nat) (msgbuf : Memory) (msglen : Nat) :
    EStateM Failure (ComputeBook Wire.StockT β × υ) Unit := do
  let call ← liftExcept
    (Wire.process recvTs msgcnt msgoffset msgbuf msglen Wire.knownItch5Messages)
  (messageHandler (return 0) callback).handle call

/-- The messages of a feed, given as their bytes, are handled one after the other. -/
def handleRecords (callback : Callback Wire.StockT β → EStateM Failure υ Unit)
    (messages : List (List UInt8)) : EStateM Failure (ComputeBook Wire.StockT β × υ) Unit :=
  messages.forM fun message => handleBuffer callback 0 0 0 (Memory.ofList message) message.length

theorem handleRecords_append (callback : Callback Wire.StockT β → EStateM Failure υ Unit)
    (messages rest : List (List UInt8)) :
    handleRecords callback (messages ++ rest) =
      (do handleRecords callback messages; handleRecords callback rest) :=
  List.forM_append

end ComputeBook

/-! ## Invariants of a feed -/

theorem liftExcept_meets {σ α : Type} {I : σ → Prop} {E : Failure → σ → Prop} (hE : ∀ e s, I s → E e s)
    (x : Except Failure α) : Meets I (liftExcept x) (fun _ => I) E := by
  cases x with
  | ok a => exact Meets.pure fun _ h => h
  | error e => exact Meets.throw (hE e)

/-- What the clock and the handler keep is kept by a whole stream, and holds whenever it is cut short by
an exception. -/
theorem processIostreamMlist_meets {σ τ : Type} {types : List Wire.MessageType}
    {handler : MessageHandler σ τ} {I : σ → Prop} {E : Failure → σ → Prop}
    (hnow : Meets I handler.now (fun _ => I) E)
    (hhandle : ∀ call, Meets I (handler.handle call) (fun _ => I) E) (hE : ∀ e s, I s → E e s)
    (leftover : IStream → Memory) (msgcnt msgoffset : UInt64) (is : IStream) :
    Meets I (processIostreamMlist types handler leftover msgcnt msgoffset is) (fun _ => I) E := by
  fun_induction processIostreamMlist types handler leftover msgcnt msgoffset is with
  | case1 msgcnt msgoffset is hgood ih =>
      apply Meets.bind hnow
      intro _
      split
      · exact Meets.pure fun _ h => h
      · next hread =>
          apply Meets.bind (liftExcept_meets hE _)
          intro msglen
          apply Meets.bind
          · apply Meets.bind hnow
            intro recvTs
            exact Meets.bind (liftExcept_meets hE _) hhandle
          · intro _
            exact ih hread msglen
  | case2 msgcnt msgoffset is hend => exact Meets.pure fun _ h => h

namespace ComputeBook

section Callbacks

variable {β : Side → Type} [BookType β] {υ : Type} {E : Failure → υ → Prop}
  {callback : Callback Wire.StockT β → EStateM Failure υ Unit}

/-- The books invoke the callback once for a message, or do not. -/
theorem messageHandler_meets {I J : υ → Prop}
    (hcallback : ∀ call, Meets I (callback call) (fun _ => J) E) (hnone : ∀ s, I s → J s)
    (hE : ∀ e s, I s → E e s) (now : EStateM Failure υ Int) (call : Wire.Call Int) :
    Meets (fun s : ComputeBook Wire.StockT β × υ => I s.2) ((messageHandler now callback).handle call)
      (fun _ s => J s.2) (fun e s => E e s.2) := by
  cases call with
  | handleUnknown recvTs msg => exact Meets.pure fun s h => hnone s.2 h
  | handleMessage recvTs msgcnt msgoffset msg =>
      apply Meets.bind ((Meets.onFst_frame _).imp (fun _ h => h) (fun _ _ h => h) fun e s => hE e s.2)
      intro called
      cases called with
      | none => exact Meets.pure fun s h => hnone s.2 h
      | some call => exact (hcallback call).onSnd

/-- So there are at most as many calls as messages. -/
theorem handleRecords_meets {I : Nat → υ → Prop}
    (hcallback : ∀ n call, Meets (I n) (callback call) (fun _ => I (n + 1)) E)
    (hnone : ∀ n s, I n s → I (n + 1) s) (hE : ∀ n e s, I n s → E e s) (messages : List (List UInt8))
    (n : Nat) :
    Meets (fun s : ComputeBook Wire.StockT β × υ => I n s.2) (handleRecords callback messages)
      (fun _ s => I (n + messages.length) s.2) (fun e s => E e s.2) := by
  induction messages generalizing n with
  | nil => exact Meets.pure fun _ h => h
  | cons message messages ih =>
      have hfirst : Meets (fun s : ComputeBook Wire.StockT β × υ => I n s.2)
          (handleBuffer callback 0 0 0 (Memory.ofList message) message.length)
          (fun _ s => I (n + 1) s.2) (fun e s => E e s.2) := by
        apply Meets.bind (liftExcept_meets (fun e s => hE n e s.2) _)
        exact messageHandler_meets (hcallback n) (hnone n) (hE n) _
      have hrest := ih (n + 1)
      rw [Nat.add_assoc, Nat.add_comm 1] at hrest
      exact Meets.bind hfirst fun _ => hrest

end Callbacks

end ComputeBook

/-! ## The header of an update -/

namespace ComputeBook

section Header

variable {κ : Type} [BEq κ] {β : Side → Type} [BookType β]

/-- If the computation invokes the callback, then with this header. -/
def CallsWith (header : MessageHeader)
    (act : EStateM Failure (ComputeBook κ β) (Option (Callback κ β))) : Prop :=
  Meets (fun _ => True) act (fun called _ => ∀ call, called = some call → call.header = header)
    (fun _ _ => True)

theorem CallsWith.none (header : MessageHeader) :
    CallsWith header (pure none : EStateM Failure (ComputeBook κ β) _) :=
  Meets.pure fun _ _ call hcall => by cases hcall

theorem CallsWith.some (book : OrderBook β) (header : MessageHeader) (update : BookUpdate κ) :
    CallsWith header (pure (some ⟨header, book, update⟩) : EStateM Failure (ComputeBook κ β) _) :=
  Meets.pure fun _ _ call hcall => by
    cases hcall
    rfl

theorem CallsWith.throw (header : MessageHeader) (e : Failure) :
    CallsWith header (throw e : EStateM Failure (ComputeBook κ β) (Option (Callback κ β))) :=
  Meets.throw fun _ _ => trivial

theorem CallsWith.bind {α : Type} {header : MessageHeader} {act : EStateM Failure (ComputeBook κ β) α}
    {next : α → EStateM Failure (ComputeBook κ β) (Option (Callback κ β))}
    (h : ∀ a, CallsWith header (next a)) : CallsWith header (act >>= next) :=
  Meets.bind Meets.trivial h

theorem handleAddOrder_header (recvts : Int) (msg : AddOrderMessage κ) :
    CallsWith (β := β) msg.header (handleAddOrder recvts msg) := by
  apply CallsWith.bind
  intro self
  apply CallsWith.bind
  intro _
  split
  · exact .none _
  · cases self.books.find? msg.stock with
    | some book => exact .bind fun _ => .bind fun _ => .some _ _ _
    | none => exact .bind fun _ => .bind fun _ => .bind fun _ => .some _ _ _

theorem handleOrderReduction_header (recvts : Int) (header : MessageHeader) (id : UInt64)
    (shares : UInt32) :
    CallsWith (κ := κ) (β := β) header (handleOrderReduction recvts header id shares) := by
  apply CallsWith.bind
  intro self
  cases self.orders.find? id with
  | none => exact .none _
  | some data =>
      dsimp only
      cases self.books.find? data.stock with
      | none => exact .throw _ _
      | some book =>
          apply CallsWith.bind
          rintro ⟨u, book⟩
          exact .some _ _ _

theorem handleOrderReplace_header (recvts : Int) (msg : OrderReplaceMessage) :
    CallsWith (κ := κ) (β := β) msg.header (handleOrderReplace recvts msg) := by
  apply CallsWith.bind
  intro self
  cases self.orders.find? msg.originalOrderReferenceNumber with
  | none => exact .none _
  | some data =>
      dsimp only
      split
      · exact .none _
      · cases self.books.find? data.stock with
        | none => exact .throw _ _
        | some book =>
            apply CallsWith.bind
            rintro ⟨update, book⟩
            exact .bind fun _ => .bind fun _ => .some _ _ _

/-- The callback is invoked with the header of the message. -/
theorem handleMessage_header (recvts : Int) (msg : Message κ) :
    CallsWith (β := β) msg.header (handleMessage recvts msg) := by
  cases msg with
  | addOrder msg => exact handleAddOrder_header recvts msg
  | addOrderMpid msg => exact handleAddOrder_header recvts msg
  | orderExecuted msg => exact handleOrderReduction_header recvts _ _ _
  | orderExecutedPrice msg => exact handleOrderReduction_header recvts _ _ _
  | orderCancel msg => exact handleOrderReduction_header recvts _ _ _
  | orderDelete msg => exact handleOrderReduction_header recvts _ _ _
  | orderReplace msg => exact handleOrderReplace_header recvts msg
  | stockDirectory msg => exact .bind fun _ => .none _
  | other header => exact .none _

end Header

end ComputeBook

/-! ## The time of receipt -/

/-- The same callback for a message received at another time. -/
def Callback.receivedAt {κ : Type} {β : Side → Type} (call : Callback κ β) (recvts : Int) :
    Callback κ β :=
  { call with update := { call.update with recvts := recvts } }

namespace ComputeBook

section ReceivedAt

variable {κ : Type} [BEq κ] {β : Side → Type} [BookType β]

theorem handleAddOrder_receivedAt (recvts : Int) (msg : AddOrderMessage κ) :
    (handleAddOrder recvts msg : EStateM Failure (ComputeBook κ β) _) =
      Option.map (·.receivedAt recvts) <$> handleAddOrder 0 msg := by
  simp only [handleAddOrder, map_bind]
  congr 1; funext self
  congr 1; funext u
  split
  · rfl
  · cases self.books.find? msg.stock <;> simp only [map_bind] <;> rfl

theorem doReduce_receivedAt (recvts : Int) (id : UInt64) (data : OrderData κ) (book : OrderBook β)
    (shares : UInt32) :
    doReduce recvts id data book shares =
      (fun p => ({ p.1 with recvts := recvts }, p.2)) <$> doReduce 0 id data book shares := by
  simp only [doReduce, map_bind]
  congr 1; funext u
  split
  · simp only [map_bind]
    rfl
  · simp only [map_bind]
    rfl

theorem handleOrderReduction_receivedAt (recvts : Int) (header : MessageHeader) (id : UInt64)
    (shares : UInt32) :
    (handleOrderReduction recvts header id shares : EStateM Failure (ComputeBook κ β) _) =
      Option.map (·.receivedAt recvts) <$> handleOrderReduction 0 header id shares := by
  simp only [handleOrderReduction, map_bind]
  congr 1; funext self
  split
  · rfl
  · split
    · rfl
    · rw [doReduce_receivedAt]
      simp only [map_bind, bind_map_left]
      rfl

theorem handleOrderReplace_receivedAt (recvts : Int) (msg : OrderReplaceMessage) :
    (handleOrderReplace recvts msg : EStateM Failure (ComputeBook κ β) _) =
      Option.map (·.receivedAt recvts) <$> handleOrderReplace 0 msg := by
  simp only [handleOrderReplace, map_bind]
  congr 1; funext self
  split
  · rfl
  · split
    · rfl
    · split
      · rfl
      · rw [doReduce_receivedAt]
        simp only [map_bind, bind_map_left]
        rfl

/-- The time of receipt shows in the callback and nowhere else. -/
theorem handleMessage_receivedAt (recvts : Int) (msg : Message κ) :
    (handleMessage recvts msg : EStateM Failure (ComputeBook κ β) _) =
      Option.map (·.receivedAt recvts) <$> handleMessage 0 msg := by
  cases msg with
  | addOrder msg => exact handleAddOrder_receivedAt recvts msg
  | addOrderMpid msg => exact handleAddOrder_receivedAt recvts msg
  | orderExecuted msg => exact handleOrderReduction_receivedAt recvts _ _ _
  | orderExecutedPrice msg => exact handleOrderReduction_receivedAt recvts _ _ _
  | orderCancel msg => exact handleOrderReduction_receivedAt recvts _ _ _
  | orderDelete msg => exact handleOrderReduction_receivedAt recvts _ _ _
  | orderReplace msg => exact handleOrderReplace_receivedAt recvts msg
  | stockDirectory msg => rfl
  | other header => rfl

end ReceivedAt

end ComputeBook

/-! ## The place of a message -/

/-- Outcomes that agree in a part of their values. -/
theorem liftExcept_simulates {σ τ μ ν γ : Type} {R : σ → τ → Prop} {x : Except Failure μ}
    {y : Except Failure ν} {f : μ → γ} {g : ν → γ}
    (h : SameOutcome Failure.exceptionClass (f <$> x) (g <$> y)) :
    Simulates Failure.exceptionClass R (fun a b => f a = g b) (liftExcept x) (liftExcept y) := by
  rcases x with e | a
  · rcases y with e' | b
    · exact .throw (Except.error.inj h)
    · cases h
  · rcases y with e' | b
    · cases h
    · exact .pure (Except.ok.inj h)

namespace Wire

/-- The message that a handler is called with. -/
def Call.message? {τ : Type} : Call τ → Option Message
  | .handleUnknown _ _ => none
  | .handleMessage _ _ _ msg => some msg

/-- The bytes of a message decide how it is decoded: it has a first byte, and when that is of a known
type the message is complete, or refused. -/
def Decisive (message : List UInt8) : Prop :=
  0 < message.length ∧ ∀ t ∈ knownItch5Messages, t.Matches (Memory.ofList message) →
    Decided message.length (Memory.ofList message) t.layout.fields

section Decisive

variable {τ : Type} {recvTs : τ} {msgcnt : UInt64} {msgoffset msglen : Nat} {m : Memory}
variable {t : MessageType}

theorem message?_process_unknown (h : ∀ t ∈ knownItch5Messages, ¬ t.Matches m) :
    Call.message? <$> process recvTs msgcnt msgoffset m msglen knownItch5Messages = .ok none := by
  rw [process_unknown h]
  rfl

theorem message?_process_known (ht : t ∈ knownItch5Messages) (h : t.Matches m) :
    Call.message? <$> process recvTs msgcnt msgoffset m msglen knownItch5Messages =
      (t.layout.map some).run msglen m := by
  rw [process_known typesDistinct_known ht h, Functor.map_map, Layout.run_map]
  rfl

/-- A complete message is decisive. -/
theorem decisive_of_complete {message : List UInt8} (hpos : 0 < message.length)
    (h : ∀ t ∈ knownItch5Messages, t.Matches (Memory.ofList message) →
      wireLength t.layout.fields ≤ message.length) : Decisive message :=
  ⟨hpos, fun t ht hmatch => .inl (h t ht hmatch)⟩

/-- A decisive message is decoded in the same way wherever it is. -/
theorem Decisive.process {message : List UInt8} (h : Decisive message) (recvTs : τ) (msgcnt : UInt64)
    (msgoffset : Nat) (hm : Agree message.length (Memory.ofList message) m) :
    SameOutcome Failure.exceptionClass
      (Call.message? <$> process recvTs msgcnt msgoffset m message.length knownItch5Messages)
      (Call.message? <$>
        process () 0 0 (Memory.ofList message) message.length knownItch5Messages) := by
  by_cases hknown : ∃ t ∈ knownItch5Messages, t.Matches (Memory.ofList message)
  · obtain ⟨t, ht, hmatch⟩ := hknown
    rw [message?_process_known ht hmatch, message?_process_known ht (hmatch.congr hm h.1)]
    exact ((Layout.independent_iff (l := t.layout.map some)).2 (h.2 t ht hmatch)).1 m hm
  · have hnone : ∀ t ∈ knownItch5Messages, ¬ t.Matches (Memory.ofList message) :=
      fun t ht hmatch => hknown ⟨t, ht, hmatch⟩
    have hnone' : ∀ t ∈ knownItch5Messages, ¬ t.Matches m :=
      fun t ht hmatch => hnone t ht (hmatch.congr hm.symm h.1)
    rw [message?_process_unknown hnone, message?_process_unknown hnone']
    exact SameOutcome.refl _ _

end Decisive

end Wire

namespace ComputeBook

/-! ## The messages of a feed -/

section Decode

variable {β : Side → Type} [BookType β] {υ : Type}

/-- What the bytes of a message are decoded as, as the books take it: nothing when the type is not
known. -/
def decode (message : List UInt8) : Except Failure (Option (Message Wire.StockT)) :=
  (fun call => call.message?.map .ofWire) <$>
    Wire.process (0 : Int) 0 0 (Memory.ofList message) message.length Wire.knownItch5Messages

/-- The books handle what was decoded. -/
def handleDecoded (callback : Callback Wire.StockT β → EStateM Failure υ Unit) :
    Option (Message Wire.StockT) → EStateM Failure (ComputeBook Wire.StockT β × υ) Unit
  | none => return ()
  | some msg => do
      let called ← onFst (handleMessage 0 msg)
      match called with
      | some call => onSnd (callback call)
      | none => return ()

theorem handleBuffer_eq (callback : Callback Wire.StockT β → EStateM Failure υ Unit)
    (message : List UInt8) :
    handleBuffer callback 0 0 0 (Memory.ofList message) message.length =
      (do handleDecoded callback (← liftExcept (decode message))) := by
  rw [handleBuffer, decode]
  by_cases hknown : ∃ t ∈ Wire.knownItch5Messages, t.Matches (Memory.ofList message)
  · obtain ⟨t, ht, hmatch⟩ := hknown
    rw [Wire.process_known Wire.typesDistinct_known ht hmatch]
    cases t.layout.run message.length (Memory.ofList message) with
    | error e => rfl
    | ok msg => rfl
  · have hnone : ∀ t ∈ Wire.knownItch5Messages, ¬ t.Matches (Memory.ofList message) :=
      fun t ht hmatch => hknown ⟨t, ht, hmatch⟩
    rw [Wire.process_unknown hnone]
    rfl

theorem handleRecords_cons_ok (callback : Callback Wire.StockT β → EStateM Failure υ Unit)
    {message : List UInt8} {decoded : Option (Message Wire.StockT)} (h : decode message = .ok decoded)
    (messages : List (List UInt8)) :
    handleRecords callback (message :: messages) =
      (do handleDecoded callback decoded; handleRecords callback messages) := by
  show (handleBuffer callback 0 0 0 (Memory.ofList message) message.length >>= fun _ =>
    handleRecords callback messages) = _
  rw [handleBuffer_eq, h]
  rfl

theorem handleRecords_cons_error (callback : Callback Wire.StockT β → EStateM Failure υ Unit)
    {message : List UInt8} {e : Failure} (h : decode message = .error e)
    (messages : List (List UInt8)) : handleRecords callback (message :: messages) = throw e := by
  show (handleBuffer callback 0 0 0 (Memory.ofList message) message.length >>= fun _ =>
    handleRecords callback messages) = _
  rw [handleBuffer_eq, h]
  rfl

/-- The messages of a feed that the books handle -/
def feed (messages : List (List UInt8)) : List (Int × Message Wire.StockT) :=
  messages.flatMap fun message =>
    match decode message with
    | .ok (some msg) => [(0, msg)]
    | _ => []

end Decode

/-! ## Feeds from two places -/

section Simulation

variable {β : Side → Type} [BookType β] {υ ω : Type}

/-- The books are the same and what the programs keep besides is related. -/
def SameFeed (Q : υ → ω → Prop) (s : ComputeBook Wire.StockT β × υ)
    (t : ComputeBook Wire.StockT β × ω) : Prop :=
  s.1 = t.1 ∧ Q s.2 t.2

/-- Two callbacks do the same, whenever the message was received. -/
def SameCallbacks (Q : υ → ω → Prop) (callback : Callback Wire.StockT β → EStateM Failure υ Unit)
    (callback' : Callback Wire.StockT β → EStateM Failure ω Unit) : Prop :=
  ∀ (call : Callback Wire.StockT β) recvts recvts', Simulates Failure.exceptionClass Q (fun _ _ => True)
    (callback (call.receivedAt recvts)) (callback' (call.receivedAt recvts'))

variable {Q : υ → ω → Prop} {callback : Callback Wire.StockT β → EStateM Failure υ Unit}
  {callback' : Callback Wire.StockT β → EStateM Failure ω Unit}

/-- Handling a message at two times. -/
theorem handleMessage_simulates (recvts recvts' : Int) (msg : Message Wire.StockT) :
    Simulates Failure.exceptionClass (SameFeed Q)
      (fun a b => ∃ c : Option (Callback Wire.StockT β),
        a = c.map (·.receivedAt recvts) ∧ b = c.map (·.receivedAt recvts'))
      (onFst (handleMessage recvts msg)) (onFst (handleMessage recvts' msg)) := by
  rw [handleMessage_receivedAt recvts, handleMessage_receivedAt recvts']
  exact .onFst_map _ _ _

/-- The handler of two programs is called with the same message. -/
theorem handle_simulates (hcallback : SameCallbacks Q callback callback')
    (now : EStateM Failure υ Int) (now' : EStateM Failure ω Int) {call call' : Wire.Call Int}
    (h : call.message? = call'.message?) :
    Simulates Failure.exceptionClass (SameFeed Q) (fun _ _ => True)
      ((messageHandler now callback).handle call) ((messageHandler now' callback').handle call') := by
  cases call with
  | handleUnknown recvTs msg =>
      cases call' with
      | handleUnknown recvTs' msg' => exact .pure trivial
      | handleMessage recvTs' msgcnt' msgoffset' msg' => cases h
  | handleMessage recvTs msgcnt msgoffset msg =>
      cases call' with
      | handleUnknown recvTs' msg' => cases h
      | handleMessage recvTs' msgcnt' msgoffset' msg' =>
          cases h
          refine (handleMessage_simulates recvTs recvTs' _).bind ?_
          rintro a b ⟨c, rfl, rfl⟩
          cases c with
          | none => exact .pure trivial
          | some c => exact (hcallback c recvTs recvTs').onSnd

/-- A decisive message is handled in the same way wherever it comes from. -/
theorem handleBuffer_simulates (hcallback : SameCallbacks Q callback callback') {message : List UInt8}
    (h : Wire.Decisive message) (now : EStateM Failure υ Int) (recvTs : Int) (msgcnt : UInt64)
    (msgoffset : Nat) {m : Memory} (hm : Agree message.length (Memory.ofList message) m) :
    Simulates Failure.exceptionClass (SameFeed Q) (fun _ _ => True)
      (do
        let call ← liftExcept
          (Wire.process recvTs msgcnt msgoffset m message.length Wire.knownItch5Messages)
        (messageHandler now callback).handle call)
      (handleBuffer callback' 0 0 0 (Memory.ofList message) message.length) := by
  have hself : Agree message.length (Memory.ofList message) (Memory.ofList message) :=
    fun _ _ => rfl
  have hsame := (h.process recvTs msgcnt msgoffset hm).trans
    (h.process (0 : Int) 0 0 hself).symm
  exact (liftExcept_simulates hsame).bind fun a b hab => handle_simulates hcallback now _ hab

/-- Reading the clock never raises and does not show in what the programs are related by. -/
def QuietClock (Q : υ → ω → Prop) (now : EStateM Failure υ Int) : Prop :=
  ∀ u w, Q u w → ∃ t u', now.run u = .ok t u' ∧ Q u' w

theorem QuietClock.now {now : EStateM Failure υ Int} (hnow : QuietClock Q now)
    (s : ComputeBook Wire.StockT β × υ) (t : ComputeBook Wire.StockT β × ω) (h : SameFeed Q s t) :
    ∃ a s', (messageHandler now callback).now.run s = .ok a s' ∧ SameFeed Q s' t := by
  obtain ⟨a, u, hrun, hu⟩ := hnow s.2 t.2 h.2
  exact ⟨a, (s.1, u), onSnd_run_ok hrun, h.1, hu⟩

/-- The books of a file are those of its messages. -/
theorem processIostream_simulates (hcallback : SameCallbacks Q callback callback')
    {now : EStateM Failure υ Int} (hnow : QuietClock Q now) (leftover : IStream → Memory)
    {messages : List (List UInt8)}
    (hmessages : ∀ message ∈ messages, message.length < 65536 ∧ Wire.Decisive message)
    (msgcnt msgoffset : UInt64) :
    Simulates Failure.exceptionClass (SameFeed Q) (fun _ _ => True)
      (processIostreamMlist Wire.knownItch5Messages (messageHandler now callback) leftover msgcnt
        msgoffset (.ofBytes (encodeBlocks messages)))
      (handleRecords callback' messages) := by
  induction messages generalizing msgcnt msgoffset with
  | nil =>
      rw [processIostreamMlist_short (show (encodeBlocks []).length < 2 from Nat.two_pos)]
      exact .quiet_bind hnow.now fun _ => .pure trivial
  | cons message messages ih =>
      rw [List.forall_mem_cons] at hmessages
      obtain ⟨⟨hlength, hdecisive⟩, hrest⟩ := hmessages
      rw [processIostreamMlist_message hlength]
      refine .quiet_bind hnow.now fun _ => Simulates.bind (V := fun _ _ => True) ?_
        fun _ _ _ => ih hrest _ _
      -- the buffer starts with the message, whatever it held before
      refine .quiet_bind hnow.now fun recvTs => ?_
      refine handleBuffer_simulates hcallback hdecisive now recvTs msgcnt _ fun i hi => ?_
      exact (Memory.write_zero_eq_ofList _ _ hi).symm

end Simulation

end ComputeBook

end JayBeams.Itch5
