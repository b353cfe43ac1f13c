import JayBeams.Itch5.WireLayouts

/-!
# Dispatch of a buffer

`process` finds the message type of a buffer from its first byte, decodes the message with validation
and calls the handler; a buffer of no known type goes to `handle_unknown`. It makes at most one call,
which is its result.

What the handler is given should depend on the message alone, not on what happens to come after it in
memory, and nothing after the message should be read. `process_independent_iff` says exactly when that
is so: `process` reads the first byte of an empty message, and a message may be cut right before a
`char_list_field`, whose byte is then read. The outcome alone depends on the message in some more cases
(`delivered_independent_iff`), where a field after the `char_list_field` is found missing.
-/

set_option autoImplicit false

namespace Bytes.Layout

variable {ε κ : Type} {kind : ε → κ} {k₀ : κ} {α β : Type}

/-- A layout whose value is passed to a function. -/
def map (g : α → β) (l : Layout kind k₀ α) : Layout kind k₀ β where
  fields := l.fields
  value := fun m => g (l.value m)
  sorted := l.sorted
  value_congr := fun h => congrArg g (l.value_congr h)

theorem run_map (g : α → β) (l : Layout kind k₀ α) (size : Nat) (m : Memory) :
    (l.map g).run size m = g <$> l.run size m := by
  simp only [run, map, map_bind, map_pure]

end Bytes.Layout

namespace JayBeams.Itch5.Wire

open Bytes

/-! ## Messages and their types -/

/-- A decoded message, of any of the types in `KNOWN_ITCH5_MESSAGES`. -/
inductive Message where
  | addOrder (msg : AddOrderMessage)
  | addOrderMpid (msg : AddOrderMpidMessage)
  | brokenTrade (msg : BrokenTradeMessage)
  | crossTrade (msg : CrossTradeMessage)
  | ipoQuotingPeriodUpdate (msg : IpoQuotingPeriodUpdateMessage)
  | marketParticipantPosition (msg : MarketParticipantPositionMessage)
  | mwcbBreach (msg : MwcbBreachMessage)
  | mwcbDeclineLevel (msg : MwcbDeclineLevelMessage)
  | netOrderImbalanceIndicator (msg : NetOrderImbalanceIndicatorMessage)
  | orderCancel (msg : OrderCancelMessage)
  | orderDelete (msg : OrderDeleteMessage)
  | orderExecuted (msg : OrderExecutedMessage)
  | orderExecutedPrice (msg : OrderExecutedPriceMessage)
  | orderReplace (msg : OrderReplaceMessage)
  | regShoRestriction (msg : RegShoRestrictionMessage)
  | stockDirectory (msg : StockDirectoryMessage)
  | stockTradingAction (msg : StockTradingActionMessage)
  | systemEvent (msg : SystemEventMessage)
  | trade (msg : TradeMessage)

/-- A message type as `process_buffer_mlist` uses it: its `message_type` and its decoder. With
validation the decoder is the run of a layout. -/
structure MessageType where
  messageType : Char
  decode : Bool → Nat → Memory → Nat → Except Failure Message
  layout : WireLayout Message
  decode_eq : ∀ size m, decode true size m 0 = layout.run size m

/-- A message type out of the layout of its messages. -/
def MessageType.ofLayout {α : Type} (c : Char) (message : α → Message)
    (decode : Bool → Nat → Memory → Nat → Except Failure α) (layout : WireLayout α)
    (decode_eq : ∀ size m, decode true size m 0 = layout.run size m) : MessageType where
  messageType := c
  decode := fun validate size buf off => message <$> decode validate size buf off
  layout := layout.map message
  decode_eq := by
    intro size m
    rw [decode_eq, Layout.run_map]

/-- `KNOWN_ITCH5_MESSAGES` -/
def knownItch5Messages : List MessageType := [
  .ofLayout 'A' .addOrder AddOrderMessage.decode AddOrderMessage.layout AddOrderMessage.decode_eq,
  .ofLayout 'F' .addOrderMpid AddOrderMpidMessage.decode AddOrderMpidMessage.layout
    AddOrderMpidMessage.decode_eq,
  .ofLayout 'B' .brokenTrade BrokenTradeMessage.decode BrokenTradeMessage.layout
    BrokenTradeMessage.decode_eq,
  .ofLayout 'Q' .crossTrade CrossTradeMessage.decode CrossTradeMessage.layout
    CrossTradeMessage.decode_eq,
  .ofLayout 'K' .ipoQuotingPeriodUpdate IpoQuotingPeriodUpdateMessage.decode
    IpoQuotingPeriodUpdateMessage.layout IpoQuotingPeriodUpdateMessage.decode_eq,
  .ofLayout 'L' .marketParticipantPosition MarketParticipantPositionMessage.decode
    MarketParticipantPositionMessage.layout MarketParticipantPositionMessage.decode_eq,
  .ofLayout 'W' .mwcbBreach MwcbBreachMessage.decode MwcbBreachMessage.layout
    MwcbBreachMessage.decode_eq,
  .ofLayout 'V' .mwcbDeclineLevel MwcbDeclineLevelMessage.decode MwcbDeclineLevelMessage.layout
    MwcbDeclineLevelMessage.decode_eq,
  .ofLayout 'I' .netOrderImbalanceIndicator NetOrderImbalanceIndicatorMessage.decode
    NetOrderImbalanceIndicatorMessage.layout NetOrderImbalanceIndicatorMessage.decode_eq,
  .ofLayout 'X' .orderCancel OrderCancelMessage.decode OrderCancelMessage.layout
    OrderCancelMessage.decode_eq,
  .ofLayout 'D' .orderDelete OrderDeleteMessage.decode OrderDeleteMessage.layout
    OrderDeleteMessage.decode_eq,
  .ofLayout 'E' .orderExecuted OrderExecutedMessage.decode OrderExecutedMessage.layout
    OrderExecutedMessage.decode_eq,
  .ofLayout 'C' .orderExecutedPrice OrderExecutedPriceMessage.decode OrderExecutedPriceMessage.layout
    OrderExecutedPriceMessage.decode_eq,
  .ofLayout 'U' .orderReplace OrderReplaceMessage.decode OrderReplaceMessage.layout
    OrderReplaceMessage.decode_eq,
  .ofLayout 'Y' .regShoRestriction RegShoRestrictionMessage.decode RegShoRestrictionMessage.layout
    RegShoRestrictionMessage.decode_eq,
  .ofLayout 'R' .stockDirectory StockDirectoryMessage.decode StockDirectoryMessage.layout
    StockDirectoryMessage.decode_eq,
  .ofLayout 'H' .stockTradingAction StockTradingActionMessage.decode StockTradingActionMessage.layout
    StockTradingActionMessage.decode_eq,
  .ofLayout 'S' .systemEvent SystemEventMessage.decode SystemEventMessage.layout
    SystemEventMessage.decode_eq,
  .ofLayout 'P' .trade TradeMessage.decode TradeMessage.layout TradeMessage.decode_eq]

/-- The message types of a list differ. -/
def TypesDistinct (types : List MessageType) : Prop :=
  types.Pairwise fun s t => s.messageType ≠ t.messageType

theorem typesDistinct_known : TypesDistinct knownItch5Messages := by
  unfold TypesDistinct
  decide

/-- The first byte of a buffer is that of a message type. -/
def MessageType.Matches (t : MessageType) (m : Memory) : Prop :=
  (m 0).toNat = t.messageType.toNat

instance (t : MessageType) (m : Memory) : Decidable (t.Matches m) :=
  inferInstanceAs (Decidable ((m 0).toNat = t.messageType.toNat))

/-! ## Dispatch -/

/-- A call on a message handler. -/
inductive Call (τ : Type) where
  | handleUnknown (recvTs : τ) (msg : UnknownMessage)
  | handleMessage (recvTs : τ) (msgcnt : UInt64) (msgoffset : Nat) (msg : Message)

/-- `process_buffer_mlist<message_handler, message_types...>::process` -/
def process {τ : Type} (recvTs : τ) (msgcnt : UInt64) (msgoffset : Nat) (msgbuf : Memory)
    (msglen : Nat) : List MessageType → Except Failure (Call τ)
  | [] => .ok (.handleUnknown recvTs ⟨msgcnt.toUInt32, msgoffset, msglen, msgbuf⟩)
  | head :: tail =>
      -- all message types are ASCII characters, so the sign of a `char` does not matter
      if head.Matches msgbuf then do
        let msg ← head.decode true msglen msgbuf 0
        return .handleMessage recvTs msgcnt msgoffset msg
      else process recvTs msgcnt msgoffset msgbuf msglen tail

/-- The indexes of the bytes that `process` reads: the first one for each type that it compares, and
what the decoder reads. -/
def processReads (msgbuf : Memory) (msglen : Nat) : List MessageType → List Nat
  | [] => []
  | head :: tail =>
      0 :: if head.Matches msgbuf then head.layout.reads msglen msgbuf
        else processReads msgbuf msglen tail

/-- What a handler is given by a call: the bytes of an unknown message are those that its length
announces. -/
inductive Delivery (τ : Type) where
  | unknown (recvTs : τ) (count : UInt32) (offset : Nat) (bytes : List UInt8)
  | message (recvTs : τ) (msgcnt : UInt64) (msgoffset : Nat) (msg : Message)

def Call.delivery {τ : Type} : Call τ → Delivery τ
  | .handleUnknown recvTs msg => .unknown recvTs msg.count msg.offset msg.bytes
  | .handleMessage recvTs msgcnt msgoffset msg => .message recvTs msgcnt msgoffset msg

section Process

variable {τ : Type} {recvTs : τ} {msgcnt : UInt64} {msgoffset msglen : Nat} {m m' : Memory}
variable {types : List MessageType} {t : MessageType}

/-- A buffer that starts like no message of the list is passed on as it is. -/
theorem process_unknown (h : ∀ t ∈ types, ¬ t.Matches m) :
    process recvTs msgcnt msgoffset m msglen types =
      .ok (.handleUnknown recvTs ⟨msgcnt.toUInt32, msgoffset, msglen, m⟩) := by
  induction types with
  | nil => rfl
  | cons head tail ih =>
      rw [List.forall_mem_cons] at h
      rw [process, if_neg h.1]
      exact ih h.2

/-- The first byte of a buffer determines the type of its message. -/
theorem MessageType.Matches.eq {s t : MessageType} (hs : s.Matches m) (ht : t.Matches m) :
    s.messageType = t.messageType :=
  Char.ext (UInt32.toNat_inj.1 (hs.symm.trans ht))

/-- A buffer that starts like a message of the list is decoded as such a message. -/
theorem process_known (hdistinct : TypesDistinct types) (ht : t ∈ types) (h : t.Matches m) :
    process recvTs msgcnt msgoffset m msglen types =
      .handleMessage recvTs msgcnt msgoffset <$> t.layout.run msglen m := by
  induction types with
  | nil => cases ht
  | cons head tail ih =>
      rw [TypesDistinct, List.pairwise_cons] at hdistinct
      rcases List.mem_cons.1 ht with rfl | htail
      · rw [process, if_pos h, t.decode_eq]
        rfl
      · have hhead : ¬ head.Matches m := fun hm => hdistinct.1 t htail (hm.eq h)
        rw [process, if_neg hhead]
        exact ih hdistinct.2 htail

theorem mem_processReads_unknown (h : ∀ t ∈ types, ¬ t.Matches m) {i : Nat}
    (hi : i ∈ processReads m msglen types) : i = 0 := by
  induction types with
  | nil => cases hi
  | cons head tail ih =>
      rw [List.forall_mem_cons] at h
      rw [processReads, if_neg h.1] at hi
      rcases List.mem_cons.1 hi with hzero | htail
      · exact hzero
      · exact ih h.2 htail

theorem mem_processReads_known (hdistinct : TypesDistinct types) (ht : t ∈ types)
    (h : t.Matches m) {i : Nat} :
    i ∈ processReads m msglen types ↔ i = 0 ∨ i ∈ t.layout.reads msglen m := by
  induction types with
  | nil => cases ht
  | cons head tail ih =>
      rw [TypesDistinct, List.pairwise_cons] at hdistinct
      rcases List.mem_cons.1 ht with rfl | htail
      · rw [processReads, if_pos h, List.mem_cons]
      · have hhead : ¬ head.Matches m := fun hm => hdistinct.1 t htail (hm.eq h)
        rw [processReads, if_neg hhead, List.mem_cons, ih hdistinct.2 htail]
        tauto

end Process

/-! ## Independence of what follows a message -/

/-- What the handler of all messages of ITCH-5.0 is given for a buffer. -/
def delivered {τ : Type} (recvTs : τ) (msgcnt : UInt64) (msgoffset msglen : Nat) (m : Memory) :
    Except Failure (Delivery τ) :=
  Call.delivery <$> process recvTs msgcnt msgoffset m msglen knownItch5Messages

/-- The layout of a message as the handler is given it. -/
def MessageType.delivery {τ : Type} (t : MessageType) (recvTs : τ) (msgcnt : UInt64)
    (msgoffset : Nat) : WireLayout (Delivery τ) :=
  t.layout.map (.message recvTs msgcnt msgoffset)

section Independent

variable {τ : Type} {recvTs : τ} {msgcnt : UInt64} {msgoffset msglen : Nat} {m m' : Memory}
variable {t : MessageType}

theorem delivered_unknown (h : ∀ t ∈ knownItch5Messages, ¬ t.Matches m) :
    delivered recvTs msgcnt msgoffset msglen m =
      .ok (.unknown recvTs msgcnt.toUInt32 msgoffset (m.read 0 msglen)) := by
  rw [delivered, process_unknown h]
  rfl

theorem delivered_known (ht : t ∈ knownItch5Messages) (h : t.Matches m) :
    delivered recvTs msgcnt msgoffset msglen m =
      (t.delivery recvTs msgcnt msgoffset).run msglen m := by
  rw [delivered, process_known typesDistinct_known ht h, Functor.map_map, MessageType.delivery,
    Layout.run_map]
  rfl

theorem MessageType.Matches.congr (h : t.Matches m) (hagree : Agree msglen m m')
    (hpos : 0 < msglen) : t.Matches m' := by
  rw [Matches, ← hagree 0 hpos]
  exact h

/-- A message without a byte of its own is taken for one of the type that follows it in memory. -/
theorem exists_delivered_ne (recvTs : τ) (msgcnt : UInt64) (msgoffset : Nat) :
    ∃ m₁ m₂ : Memory, ¬ SameOutcome Failure.exceptionClass
      (delivered recvTs msgcnt msgoffset 0 m₁) (delivered recvTs msgcnt msgoffset 0 m₂) := by
  let orderDelete : MessageType := .ofLayout 'D' .orderDelete OrderDeleteMessage.decode
    OrderDeleteMessage.layout OrderDeleteMessage.decode_eq
  have hmem : orderDelete ∈ knownItch5Messages := by
    simp [orderDelete, knownItch5Messages]
  refine ⟨fun _ => 0, fun _ => 'D'.toNat.toUInt8, ?_⟩
  have hunknown : ∀ t ∈ knownItch5Messages, ¬ t.Matches (fun _ => 0) := by
    simp [knownItch5Messages, MessageType.Matches, MessageType.ofLayout]
  have hmatch : orderDelete.Matches (fun _ => 'D'.toNat.toUInt8) := rfl
  have houtside : Decided 0 (fun _ => 'D'.toNat.toUInt8) orderDelete.layout.fields :=
    Or.inr (Or.inr ⟨uint8Field 0, List.mem_cons_self, nofun, Nat.one_pos⟩)
  have hlength : 0 < wireLength OrderDeleteMessage.fields := by decide
  obtain ⟨e, he⟩ := ((Layout.independent_iff
    (l := orderDelete.delivery recvTs msgcnt msgoffset)).2 houtside).2 hlength
  rw [delivered_unknown hunknown, delivered_known hmem hmatch, he]
  exact not_sameOutcome_ok_error _ _

/-- What the handler is given depends on the message alone, and a message shorter than the wire
format of its type is not delivered, exactly when the message is not empty and, if its first byte is
that of a known type, it decides the tests of the fields of that type. -/
theorem delivered_independent_iff (recvTs : τ) (msgcnt : UInt64) (msgoffset msglen : Nat)
    (m : Memory) :
    ((∀ m', Agree msglen m m' →
          SameOutcome Failure.exceptionClass (delivered recvTs msgcnt msgoffset msglen m')
            (delivered recvTs msgcnt msgoffset msglen m)) ∧
        ∀ t ∈ knownItch5Messages, t.Matches m → msglen < wireLength t.layout.fields →
          ∃ e, delivered recvTs msgcnt msgoffset msglen m = .error e) ↔
      0 < msglen ∧ ∀ t ∈ knownItch5Messages, t.Matches m →
        Decided msglen m t.layout.fields := by
  constructor
  · rintro ⟨hsame, hshort⟩
    have hpos : 0 < msglen := by
      by_contra hzero
      obtain rfl := Nat.eq_zero_of_not_pos hzero
      -- An empty message is dispatched on a byte that is not part of it.
      obtain ⟨m₁, m₂, hne⟩ := exists_delivered_ne recvTs msgcnt msgoffset
      have hempty : ∀ m', Agree 0 m m' := fun m' i hi => absurd hi (Nat.not_lt_zero i)
      exact hne ((hsame m₁ (hempty m₁)).trans (hsame m₂ (hempty m₂)).symm)
    refine ⟨hpos, fun t ht hmatch => ?_⟩
    have hrun : ∀ m', Agree msglen m m' → delivered recvTs msgcnt msgoffset msglen m' =
        (t.delivery recvTs msgcnt msgoffset).run msglen m' :=
      fun m' hm' => delivered_known ht (hmatch.congr hm' hpos)
    have hself : Agree msglen m m := fun _ _ => rfl
    apply (Layout.independent_iff (l := t.delivery recvTs msgcnt msgoffset)).1
    refine ⟨fun m' hm' => ?_, fun hlt => ?_⟩
    · rw [← hrun m' hm', ← hrun m hself]
      exact hsame m' hm'
    · rw [← hrun m hself]
      exact hshort t ht hmatch hlt
  · rintro ⟨hpos, hdecided⟩
    by_cases hknown : ∃ t ∈ knownItch5Messages, t.Matches m
    · -- The outcome is that of the decoder of the type, which is decided by the bytes read.
      obtain ⟨t, ht, hmatch⟩ := hknown
      have hlayout := (Layout.independent_iff
        (l := t.delivery recvTs msgcnt msgoffset)).2 (hdecided t ht hmatch)
      refine ⟨fun m' hm' => ?_, fun s hs hsmatch hlt => ?_⟩
      · rw [delivered_known ht hmatch, delivered_known ht (hmatch.congr hm' hpos)]
        exact hlayout.1 m' hm'
      · rw [delivered_known hs hsmatch]
        exact ((Layout.independent_iff
          (l := s.delivery recvTs msgcnt msgoffset)).2 (hdecided s hs hsmatch)).2 hlt
    · -- A message of no known type is handed over as its bytes.
      have hnone : ∀ t ∈ knownItch5Messages, ¬ t.Matches m :=
        fun t ht hmatch => hknown ⟨t, ht, hmatch⟩
      refine ⟨fun m' hm' => ?_, fun t ht hmatch => absurd hmatch (hnone t ht)⟩
      have hnone' : ∀ t ∈ knownItch5Messages, ¬ t.Matches m' :=
        fun t ht hmatch => hnone t ht (hmatch.congr hm'.symm hpos)
      rw [delivered_unknown hnone, delivered_unknown hnone',
        hm'.symm.read_eq (Nat.le_of_eq (Nat.zero_add msglen))]
      exact SameOutcome.refl _ _

/-- No byte after the message is read exactly when the message is not empty and, if its first byte is
that of a known type, it keeps the tests of the fields of that type inside. -/
theorem processReads_lt_iff :
    (∀ i ∈ processReads m msglen knownItch5Messages, i < msglen) ↔
      0 < msglen ∧ ∀ t ∈ knownItch5Messages, t.Matches m →
        Contained msglen m t.layout.fields := by
  constructor
  · intro h
    refine ⟨h 0 List.mem_cons_self, fun t ht hmatch => Layout.reads_lt_iff.1 fun i hi => ?_⟩
    exact h i ((mem_processReads_known typesDistinct_known ht hmatch).2 (Or.inr hi))
  · rintro ⟨hpos, hcontained⟩ i hi
    by_cases hknown : ∃ t ∈ knownItch5Messages, t.Matches m
    · obtain ⟨t, ht, hmatch⟩ := hknown
      rcases (mem_processReads_known typesDistinct_known ht hmatch).1 hi with rfl | hread
      · exact hpos
      · exact Layout.reads_lt_iff.2 (hcontained t ht hmatch) i hread
    · have hnone : ∀ t ∈ knownItch5Messages, ¬ t.Matches m :=
        fun t ht hmatch => hknown ⟨t, ht, hmatch⟩
      rw [mem_processReads_unknown hnone hi]
      exact hpos

/-- What the handler is given depends on the message alone, no byte after the message is read, and a
message shorter than the wire format of its type is not delivered, exactly when the message is not
empty and, if its first byte is that of a known type, it keeps the tests of the fields of that type
inside. -/
theorem process_independent_iff (recvTs : τ) (msgcnt : UInt64) (msgoffset msglen : Nat)
    (m : Memory) :
    ((∀ m', Agree msglen m m' →
          SameOutcome Failure.exceptionClass (delivered recvTs msgcnt msgoffset msglen m')
            (delivered recvTs msgcnt msgoffset msglen m)) ∧
        (∀ i ∈ processReads m msglen knownItch5Messages, i < msglen) ∧
        ∀ t ∈ knownItch5Messages, t.Matches m → msglen < wireLength t.layout.fields →
          ∃ e, delivered recvTs msgcnt msgoffset msglen m = .error e) ↔
      0 < msglen ∧ ∀ t ∈ knownItch5Messages, t.Matches m →
        Contained msglen m t.layout.fields := by
  rw [processReads_lt_iff]
  constructor
  · rintro ⟨-, hcontained, -⟩
    exact hcontained
  · intro hcontained
    -- what is contained is decided
    have hdecided := (delivered_independent_iff recvTs msgcnt msgoffset msglen m).2
      ⟨hcontained.1, fun t ht hmatch => (hcontained.2 t ht hmatch).decided⟩
    exact ⟨hdecided.1, hcontained, hdecided.2⟩

/-- The first eleven bytes of a `system_event_message`, which lack its event code, and a byte after
them. -/
def cutSystemEvent (next : UInt8) : Memory :=
  Memory.ofList ['S'.toNat.toUInt8, 0, 0, 0, 0, 0, 0, 0, 0, 0, 0, next]

/-- A cut `system_event_message` is delivered with the byte after it as its event code. -/
theorem cutSystemEvent_interferes :
    Agree 11 (cutSystemEvent 'O'.toNat.toUInt8) (cutSystemEvent 0) ∧
      (∃ d, delivered () 0 2 11 (cutSystemEvent 'O'.toNat.toUInt8) = .ok d) ∧
      ¬ SameOutcome Failure.exceptionClass
        (delivered () 0 2 11 (cutSystemEvent 'O'.toNat.toUInt8))
        (delivered () 0 2 11 (cutSystemEvent 0)) := by
  have hdelivered : ∃ d, delivered () 0 2 11 (cutSystemEvent 'O'.toNat.toUInt8) = .ok d :=
    ⟨_, rfl⟩
  have hrefused : delivered () 0 2 11 (cutSystemEvent 0) =
      .error (.charListValidationFailed 0) := rfl
  refine ⟨by unfold Agree; decide, hdelivered, ?_⟩
  obtain ⟨d, hd⟩ := hdelivered
  rw [hd, hrefused]
  exact not_sameOutcome_ok_error _ _

end Independent

end JayBeams.Itch5.Wire
