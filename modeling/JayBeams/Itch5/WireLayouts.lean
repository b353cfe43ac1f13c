import JayBeams.Itch5.WireMessages

/-!
# Layouts of the messages on the wire

For each message the list of its fields, the message that the bytes of a buffer spell, and the layout
made of the two. The decoder of a message is the run of its layout (`decode_eq`).
-/

set_option autoImplicit false

namespace JayBeams.Itch5.Wire

open Bytes

/-- A layout of a message on the wire. -/
abbrev WireLayout (α : Type) := Layout Failure.exceptionClass fieldErrorClass α

/-! ## Headers -/

/-- The fields of a message header. -/
def headerFields : List WireField :=
  [uint8Field 0, uint16Field 1, uint16Field 3, timestampField 5]

/-- The header that the first bytes of a buffer spell. -/
def headerOfMemory (m : Memory) : MessageHeader where
  messageType := (m 0).toNat
  stockLocate := (load16 m 1).toNat
  trackingNumber := (load16 m 3).toNat
  timestamp := Decoder.nanoseconds m 5

/-- The decoder of a header checks its fields, and returns what they spell. -/
@[simp] theorem messageHeader_eq (size : Nat) (m : Memory) :
    Decoder.messageHeader true size m 0 =
      (do checkAll size m headerFields; return headerOfMemory m) := by
  simp [Decoder.messageHeader, headerFields, headerOfMemory]

section Congr

variable {n offset : Nat} {m m' : Memory}

/-- A header depends on its own bytes alone. -/
theorem headerOfMemory_congr (h : Agree n m m') (hn : 11 ≤ n) :
    headerOfMemory m = headerOfMemory m' := by
  have h : Agree 11 m m' := h.mono hn
  simp (disch := decide) only [headerOfMemory, Decoder.nanoseconds_congr h, load16_congr h, h 0]

/-- A string depends on its own bytes alone. -/
theorem assign_congr {w : Nat} (h : Agree n m m') (hw : offset + w ≤ n) :
    (ShortStringField.assign m offset : ShortStringField w) =
      ShortStringField.assign m' offset := by
  simp only [ShortStringField.assign, h.read_eq hw]

end Congr

/-! ## Messages -/

/-- The fields of an `add_order_message`. -/
def AddOrderMessage.fields : List WireField :=
  headerFields ++ [uint64Field 11, charField buySellIndicatorT 19, uint32Field 20,
    stringField noopValidator 8 24, uint32Field 32]

/-- The `add_order_message` that the bytes of a buffer spell. -/
def AddOrderMessage.ofMemory (m : Memory) : AddOrderMessage where
  header := headerOfMemory m
  orderReferenceNumber := load64 m 11
  buySellIndicator := ⟨(m 19).toNat⟩
  shares := int32 (load32 m 20).toNat
  stock := ShortStringField.assign m 24
  price := (load32 m 32).toNat

/-- An `add_order_message`: its fields, and what they spell. -/
def AddOrderMessage.layout : WireLayout AddOrderMessage where
  fields := fields
  value := ofMemory
  sorted := by decide
  value_congr := by
    intro m m' h
    have h : Agree 36 m m' := h
    simp (disch := decide) only [ofMemory, headerOfMemory_congr h, load64_congr h, load32_congr h,
      h _, assign_congr h]

/-- The decoder of an `add_order_message` is the run of its layout. -/
theorem AddOrderMessage.decode_eq (size : Nat) (m : Memory) :
    decode true size m 0 = layout.run size m := by
  simp [decode, Layout.run, layout, fields, ofMemory]

/-- The fields of an `add_order_mpid_message`. -/
def AddOrderMpidMessage.fields : List WireField :=
  AddOrderMessage.fields ++ [stringField noopValidator 4 36]

/-- The `add_order_mpid_message` that the bytes of a buffer spell. -/
def AddOrderMpidMessage.ofMemory (m : Memory) : AddOrderMpidMessage where
  toAddOrderMessage := AddOrderMessage.ofMemory m
  attribution := ShortStringField.assign m 36

/-- An `add_order_mpid_message`: its fields, and what they spell. -/
def AddOrderMpidMessage.layout : WireLayout AddOrderMpidMessage where
  fields := fields
  value := ofMemory
  sorted := by decide
  value_congr := by
    intro m m' h
    have h : Agree 40 m m' := h
    simp (disch := decide) only [ofMemory, AddOrderMessage.ofMemory, headerOfMemory_congr h,
      load64_congr h, load32_congr h, h _, assign_congr h]

/-- The decoder of an `add_order_mpid_message` is the run of its layout. -/
theorem AddOrderMpidMessage.decode_eq (size : Nat) (m : Memory) :
    decode true size m 0 = layout.run size m := by
  simp [decode, AddOrderMessage.decode, Layout.run, layout, fields, AddOrderMessage.fields,
    ofMemory, AddOrderMessage.ofMemory]

/-- The fields of a `broken_trade_message`. -/
def BrokenTradeMessage.fields : List WireField :=
  headerFields ++ [uint64Field 11]

/-- The `broken_trade_message` that the bytes of a buffer spell. -/
def BrokenTradeMessage.ofMemory (m : Memory) : BrokenTradeMessage where
  header := headerOfMemory m
  matchNumber := load64 m 11

/-- A `broken_trade_message`: its fields, and what they spell. -/
def BrokenTradeMessage.layout : WireLayout BrokenTradeMessage where
  fields := fields
  value := ofMemory
  sorted := by decide
  value_congr := by
    intro m m' h
    have h : Agree 19 m m' := h
    simp (disch := decide) only [ofMemory, headerOfMemory_congr h, load64_congr h]

/-- The decoder of a `broken_trade_message` is the run of its layout. -/
theorem BrokenTradeMessage.decode_eq (size : Nat) (m : Memory) :
    decode true size m 0 = layout.run size m := by
  simp [decode, Layout.run, layout, fields, ofMemory]

/-- The fields of a `cross_trade_message`. -/
def CrossTradeMessage.fields : List WireField :=
  headerFields ++ [uint64Field 11, stringField noopValidator 8 19, uint32Field 27, uint64Field 31,
    charField crossTypeT 39]

/-- The `cross_trade_message` that the bytes of a buffer spell. -/
def CrossTradeMessage.ofMemory (m : Memory) : CrossTradeMessage where
  header := headerOfMemory m
  shares := load64 m 11
  stock := ShortStringField.assign m 19
  crossPrice := (load32 m 27).toNat
  matchNumber := load64 m 31
  crossType := ⟨(m 39).toNat⟩

/-- A `cross_trade_message`: its fields, and what they spell. -/
def CrossTradeMessage.layout : WireLayout CrossTradeMessage where
  fields := fields
  value := ofMemory
  sorted := by decide
  value_congr := by
    intro m m' h
    have h : Agree 40 m m' := h
    simp (disch := decide) only [ofMemory, headerOfMemory_congr h, load64_congr h, load32_congr h,
      h _, assign_congr h]

/-- The decoder of a `cross_trade_message` is the run of its layout. -/
theorem CrossTradeMessage.decode_eq (size : Nat) (m : Memory) :
    decode true size m 0 = layout.run size m := by
  simp [decode, Layout.run, layout, fields, ofMemory]

/-- The fields of an `ipo_quoting_period_update_message`. -/
def IpoQuotingPeriodUpdateMessage.fields : List WireField :=
  headerFields ++ [stringField noopValidator 8 11, secondsLayoutField 19,
    charField ipoQuotationReleaseQualifierT 23, uint32Field 24]

/-- The `ipo_quoting_period_update_message` that the bytes of a buffer spell. -/
def IpoQuotingPeriodUpdateMessage.ofMemory (m : Memory) : IpoQuotingPeriodUpdateMessage where
  header := headerOfMemory m
  stock := ShortStringField.assign m 11
  ipoQuotationReleaseTime := ⟨int32 (load32 m 19).toNat⟩
  ipoQuotationReleaseQualifier := ⟨(m 23).toNat⟩
  ipoPrice := (load32 m 24).toNat

/-- An `ipo_quoting_period_update_message`: its fields, and what they spell. -/
def IpoQuotingPeriodUpdateMessage.layout : WireLayout IpoQuotingPeriodUpdateMessage where
  fields := fields
  value := ofMemory
  sorted := by decide
  value_congr := by
    intro m m' h
    have h : Agree 28 m m' := h
    simp (disch := decide) only [ofMemory, headerOfMemory_congr h, load32_congr h, h _,
      assign_congr h]

/-- The decoder of an `ipo_quoting_period_update_message` is the run of its layout. -/
theorem IpoQuotingPeriodUpdateMessage.decode_eq (size : Nat) (m : Memory) :
    decode true size m 0 = layout.run size m := by
  simp [decode, Layout.run, layout, fields, ofMemory]

/-- The fields of a `market_participant_position_message`. -/
def MarketParticipantPositionMessage.fields : List WireField :=
  headerFields ++ [stringField noopValidator 4 11, stringField noopValidator 8 15,
    charField primaryMarketMakerT 23, charField marketMakerModeT 24,
    charField marketParticipantStateT 25]

/-- The `market_participant_position_message` that the bytes of a buffer spell. -/
def MarketParticipantPositionMessage.ofMemory (m : Memory) : MarketParticipantPositionMessage where
  header := headerOfMemory m
  mpid := ShortStringField.assign m 11
  stock := ShortStringField.assign m 15
  primaryMarketMaker := ⟨(m 23).toNat⟩
  marketMakerMode := ⟨(m 24).toNat⟩
  marketParticipantState := ⟨(m 25).toNat⟩

/-- A `market_participant_position_message`: its fields, and what they spell. -/
def MarketParticipantPositionMessage.layout : WireLayout MarketParticipantPositionMessage where
  fields := fields
  value := ofMemory
  sorted := by decide
  value_congr := by
    intro m m' h
    have h : Agree 26 m m' := h
    simp (disch := decide) only [ofMemory, headerOfMemory_congr h, h _, assign_congr h]

/-- The decoder of a `market_participant_position_message` is the run of its layout. -/
theorem MarketParticipantPositionMessage.decode_eq (size : Nat) (m : Memory) :
    decode true size m 0 = layout.run size m := by
  simp [decode, Layout.run, layout, fields, ofMemory]

/-- The fields of a `mwcb_breach_message`. -/
def MwcbBreachMessage.fields : List WireField :=
  headerFields ++ [charField breachedLevelT 11]

/-- The `mwcb_breach_message` that the bytes of a buffer spell. -/
def MwcbBreachMessage.ofMemory (m : Memory) : MwcbBreachMessage where
  header := headerOfMemory m
  breachedLevel := ⟨(m 11).toNat⟩

/-- A `mwcb_breach_message`: its fields, and what they spell. -/
def MwcbBreachMessage.layout : WireLayout MwcbBreachMessage where
  fields := fields
  value := ofMemory
  sorted := by decide
  value_congr := by
    intro m m' h
    have h : Agree 12 m m' := h
    simp (disch := decide) only [ofMemory, headerOfMemory_congr h, h _]

/-- The decoder of a `mwcb_breach_message` is the run of its layout. -/
theorem MwcbBreachMessage.decode_eq (size : Nat) (m : Memory) :
    decode true size m 0 = layout.run size m := by
  simp [decode, Layout.run, layout, fields, ofMemory]

/-- The fields of a `mwcb_decline_level_message`. -/
def MwcbDeclineLevelMessage.fields : List WireField :=
  headerFields ++ [uint64Field 11, uint64Field 19, uint64Field 27]

/-- The `mwcb_decline_level_message` that the bytes of a buffer spell. -/
def MwcbDeclineLevelMessage.ofMemory (m : Memory) : MwcbDeclineLevelMessage where
  header := headerOfMemory m
  level1 := (load64 m 11).toNat
  level2 := (load64 m 19).toNat
  level3 := (load64 m 27).toNat

/-- A `mwcb_decline_level_message`: its fields, and what they spell. -/
def MwcbDeclineLevelMessage.layout : WireLayout MwcbDeclineLevelMessage where
  fields := fields
  value := ofMemory
  sorted := by decide
  value_congr := by
    intro m m' h
    have h : Agree 35 m m' := h
    simp (disch := decide) only [ofMemory, headerOfMemory_congr h, load64_congr h]

/-- The decoder of a `mwcb_decline_level_message` is the run of its layout. -/
theorem MwcbDeclineLevelMessage.decode_eq (size : Nat) (m : Memory) :
    decode true size m 0 = layout.run size m := by
  simp [decode, Layout.run, layout, fields, ofMemory]

/-- The fields of a `net_order_imbalance_indicator_message`. -/
def NetOrderImbalanceIndicatorMessage.fields : List WireField :=
  headerFields ++ [uint64Field 11, uint64Field 19, charField imbalanceDirectionT 27,
    stringField noopValidator 8 28, uint32Field 36, uint32Field 40, uint32Field 44,
    charField crossTypeT 48, charField priceVariationIndicatorT 49]

/-- The `net_order_imbalance_indicator_message` that the bytes of a buffer spell. -/
def NetOrderImbalanceIndicatorMessage.ofMemory (m : Memory) : NetOrderImbalanceIndicatorMessage where
  header := headerOfMemory m
  pairedShares := load64 m 11
  imbalanceShares := load64 m 19
  imbalanceDirection := ⟨(m 27).toNat⟩
  stock := ShortStringField.assign m 28
  farPrice := (load32 m 36).toNat
  nearPrice := (load32 m 40).toNat
  currentReferencePrice := (load32 m 44).toNat
  crossType := ⟨(m 48).toNat⟩
  priceVariationIndicator := ⟨(m 49).toNat⟩

/-- A `net_order_imbalance_indicator_message`: its fields, and what they spell. -/
def NetOrderImbalanceIndicatorMessage.layout : WireLayout NetOrderImbalanceIndicatorMessage where
  fields := fields
  value := ofMemory
  sorted := by decide
  value_congr := by
    intro m m' h
    have h : Agree 50 m m' := h
    simp (disch := decide) only [ofMemory, headerOfMemory_congr h, load64_congr h, load32_congr h,
      h _, assign_congr h]

/-- The decoder of a `net_order_imbalance_indicator_message` is the run of its layout. -/
theorem NetOrderImbalanceIndicatorMessage.decode_eq (size : Nat) (m : Memory) :
    decode true size m 0 = layout.run size m := by
  simp [decode, Layout.run, layout, fields, ofMemory]

/-- The fields of an `order_cancel_message`. -/
def OrderCancelMessage.fields : List WireField :=
  headerFields ++ [uint64Field 11, uint32Field 19]

/-- The `order_cancel_message` that the bytes of a buffer spell. -/
def OrderCancelMessage.ofMemory (m : Memory) : OrderCancelMessage where
  header := headerOfMemory m
  orderReferenceNumber := load64 m 11
  canceledShares := load32 m 19

/-- An `order_cancel_message`: its fields, and what they spell. -/
def OrderCancelMessage.layout : WireLayout OrderCancelMessage where
  fields := fields
  value := ofMemory
  sorted := by decide
  value_congr := by
    intro m m' h
    have h : Agree 23 m m' := h
    simp (disch := decide) only [ofMemory, headerOfMemory_congr h, load64_congr h, load32_congr h]

/-- The decoder of an `order_cancel_message` is the run of its layout. -/
theorem OrderCancelMessage.decode_eq (size : Nat) (m : Memory) :
    decode true size m 0 = layout.run size m := by
  simp [decode, Layout.run, layout, fields, ofMemory]

/-- The fields of an `order_delete_message`. -/
def OrderDeleteMessage.fields : List WireField :=
  headerFields ++ [uint64Field 11]

/-- The `order_delete_message` that the bytes of a buffer spell. -/
def OrderDeleteMessage.ofMemory (m : Memory) : OrderDeleteMessage where
  header := headerOfMemory m
  orderReferenceNumber := load64 m 11

/-- An `order_delete_message`: its fields, and what they spell. -/
def OrderDeleteMessage.layout : WireLayout OrderDeleteMessage where
  fields := fields
  value := ofMemory
  sorted := by decide
  value_congr := by
    intro m m' h
    have h : Agree 19 m m' := h
    simp (disch := decide) only [ofMemory, headerOfMemory_congr h, load64_congr h]

/-- The decoder of an `order_delete_message` is the run of its layout. -/
theorem OrderDeleteMessage.decode_eq (size : Nat) (m : Memory) :
    decode true size m 0 = layout.run size m := by
  simp [decode, Layout.run, layout, fields, ofMemory]

/-- The fields of an `order_executed_message`. -/
def OrderExecutedMessage.fields : List WireField :=
  headerFields ++ [uint64Field 11, uint32Field 19, uint64Field 23]

/-- The `order_executed_message` that the bytes of a buffer spell. -/
def OrderExecutedMessage.ofMemory (m : Memory) : OrderExecutedMessage where
  header := headerOfMemory m
  orderReferenceNumber := load64 m 11
  executedShares := load32 m 19
  matchNumber := load64 m 23

/-- An `order_executed_message`: its fields, and what they spell. -/
def OrderExecutedMessage.layout : WireLayout OrderExecutedMessage where
  fields := fields
  value := ofMemory
  sorted := by decide
  value_congr := by
    intro m m' h
    have h : Agree 31 m m' := h
    simp (disch := decide) only [ofMemory, headerOfMemory_congr h, load64_congr h, load32_congr h]

/-- The decoder of an `order_executed_message` is the run of its layout. -/
theorem OrderExecutedMessage.decode_eq (size : Nat) (m : Memory) :
    decode true size m 0 = layout.run size m := by
  simp [decode, Layout.run, layout, fields, ofMemory]

/-- The fields of an `order_executed_price_message`. -/
def OrderExecutedPriceMessage.fields : List WireField :=
  OrderExecutedMessage.fields ++ [charField printableT 31, uint32Field 32]

/-- The `order_executed_price_message` that the bytes of a buffer spell. -/
def OrderExecutedPriceMessage.ofMemory (m : Memory) : OrderExecutedPriceMessage where
  toOrderExecutedMessage := OrderExecutedMessage.ofMemory m
  printable := ⟨(m 31).toNat⟩
  executionPrice := (load32 m 32).toNat

/-- An `order_executed_price_message`: its fields, and what they spell. -/
def OrderExecutedPriceMessage.layout : WireLayout OrderExecutedPriceMessage where
  fields := fields
  value := ofMemory
  sorted := by decide
  value_congr := by
    intro m m' h
    have h : Agree 36 m m' := h
    simp (disch := decide) only [ofMemory, OrderExecutedMessage.ofMemory, headerOfMemory_congr h,
      load64_congr h, load32_congr h, h _]

/-- The decoder of an `order_executed_price_message` is the run of its layout. -/
theorem OrderExecutedPriceMessage.decode_eq (size : Nat) (m : Memory) :
    decode true size m 0 = layout.run size m := by
  simp [decode, OrderExecutedMessage.decode, Layout.run, layout, fields,
    OrderExecutedMessage.fields, ofMemory, OrderExecutedMessage.ofMemory]

/-- The fields of an `order_replace_message`. -/
def OrderReplaceMessage.fields : List WireField :=
  headerFields ++ [uint64Field 11, uint64Field 19, uint32Field 27, uint32Field 31]

/-- The `order_replace_message` that the bytes of a buffer spell. -/
def OrderReplaceMessage.ofMemory (m : Memory) : OrderReplaceMessage where
  header := headerOfMemory m
  originalOrderReferenceNumber := load64 m 11
  newOrderReferenceNumber := load64 m 19
  shares := int32 (load32 m 27).toNat
  price := (load32 m 31).toNat

/-- An `order_replace_message`: its fields, and what they spell. -/
def OrderReplaceMessage.layout : WireLayout OrderReplaceMessage where
  fields := fields
  value := ofMemory
  sorted := by decide
  value_congr := by
    intro m m' h
    have h : Agree 35 m m' := h
    simp (disch := decide) only [ofMemory, headerOfMemory_congr h, load64_congr h, load32_congr h]

/-- The decoder of an `order_replace_message` is the run of its layout. -/
theorem OrderReplaceMessage.decode_eq (size : Nat) (m : Memory) :
    decode true size m 0 = layout.run size m := by
  simp [decode, Layout.run, layout, fields, ofMemory]

/-- The fields of a `reg_sho_restriction_message`. -/
def RegShoRestrictionMessage.fields : List WireField :=
  headerFields ++ [stringField noopValidator 8 11, charField regShoActionT 19]

/-- The `reg_sho_restriction_message` that the bytes of a buffer spell. -/
def RegShoRestrictionMessage.ofMemory (m : Memory) : RegShoRestrictionMessage where
  header := headerOfMemory m
  stock := ShortStringField.assign m 11
  regShoAction := ⟨(m 19).toNat⟩

/-- A `reg_sho_restriction_message`: its fields, and what they spell. -/
def RegShoRestrictionMessage.layout : WireLayout RegShoRestrictionMessage where
  fields := fields
  value := ofMemory
  sorted := by decide
  value_congr := by
    intro m m' h
    have h : Agree 20 m m' := h
    simp (disch := decide) only [ofMemory, headerOfMemory_congr h, h _, assign_congr h]

/-- The decoder of a `reg_sho_restriction_message` is the run of its layout. -/
theorem RegShoRestrictionMessage.decode_eq (size : Nat) (m : Memory) :
    decode true size m 0 = layout.run size m := by
  simp [decode, Layout.run, layout, fields, ofMemory]

/-- The fields of a `stock_directory_message`. -/
def StockDirectoryMessage.fields : List WireField :=
  headerFields ++ [stringField noopValidator 8 11, charField marketCategoryT 19,
    charField financialStatusIndicatorT 20, uint32Field 21, charField roundlotsOnlyT 25,
    charField issueClassificationT 26, stringField validateIssueSubtype 2 27,
    charField authenticityT 29, charField shortSaleThresholdIndicatorT 30, charField ipoFlagT 31,
    charField luldReferencePriceTierT 32, charField etpFlagT 33, uint32Field 34,
    charField inverseIndicatorT 38]

/-- The `stock_directory_message` that the bytes of a buffer spell. -/
def StockDirectoryMessage.ofMemory (m : Memory) : StockDirectoryMessage where
  header := headerOfMemory m
  stock := ShortStringField.assign m 11
  marketCategory := ⟨(m 19).toNat⟩
  financialStatusIndicator := ⟨(m 20).toNat⟩
  roundLotSize := int32 (load32 m 21).toNat
  roundlotsOnly := ⟨(m 25).toNat⟩
  issueClassification := ⟨(m 26).toNat⟩
  issueSubtype := ShortStringField.assign m 27
  authenticity := ⟨(m 29).toNat⟩
  shortSaleThresholdIndicator := ⟨(m 30).toNat⟩
  ipoFlag := ⟨(m 31).toNat⟩
  luldReferencePriceTier := ⟨(m 32).toNat⟩
  etpFlag := ⟨(m 33).toNat⟩
  etpLeverageFactor := int32 (load32 m 34).toNat
  inverseIndicator := ⟨(m 38).toNat⟩

/-- A `stock_directory_message`: its fields, and what they spell. -/
def StockDirectoryMessage.layout : WireLayout StockDirectoryMessage where
  fields := fields
  value := ofMemory
  sorted := by decide
  value_congr := by
    intro m m' h
    have h : Agree 39 m m' := h
    simp (disch := decide) only [ofMemory, headerOfMemory_congr h, load32_congr h, h _,
      assign_congr h]

/-- The decoder of a `stock_directory_message` is the run of its layout. -/
theorem StockDirectoryMessage.decode_eq (size : Nat) (m : Memory) :
    decode true size m 0 = layout.run size m := by
  simp [decode, Layout.run, layout, fields, ofMemory]

/-- The fields of a `stock_trading_action_message`. -/
def StockTradingActionMessage.fields : List WireField :=
  headerFields ++ [stringField noopValidator 8 11, charField tradingStateT 19, uint8Field 20,
    stringField noopValidator 4 21]

/-- The `stock_trading_action_message` that the bytes of a buffer spell. -/
def StockTradingActionMessage.ofMemory (m : Memory) : StockTradingActionMessage where
  header := headerOfMemory m
  stock := ShortStringField.assign m 11
  tradingState := ⟨(m 19).toNat⟩
  reserved := (m 20).toNat
  reason := ShortStringField.assign m 21

/-- A `stock_trading_action_message`: its fields, and what they spell. -/
def StockTradingActionMessage.layout : WireLayout StockTradingActionMessage where
  fields := fields
  value := ofMemory
  sorted := by decide
  value_congr := by
    intro m m' h
    have h : Agree 25 m m' := h
    simp (disch := decide) only [ofMemory, headerOfMemory_congr h, h _, assign_congr h]

/-- The decoder of a `stock_trading_action_message` is the run of its layout. -/
theorem StockTradingActionMessage.decode_eq (size : Nat) (m : Memory) :
    decode true size m 0 = layout.run size m := by
  simp [decode, Layout.run, layout, fields, ofMemory]

/-- The fields of a `system_event_message`. -/
def SystemEventMessage.fields : List WireField :=
  headerFields ++ [charField eventCodeT 11]

/-- The `system_event_message` that the bytes of a buffer spell. -/
def SystemEventMessage.ofMemory (m : Memory) : SystemEventMessage where
  header := headerOfMemory m
  eventCode := ⟨(m 11).toNat⟩

/-- A `system_event_message`: its fields, and what they spell. -/
def SystemEventMessage.layout : WireLayout SystemEventMessage where
  fields := fields
  value := ofMemory
  sorted := by decide
  value_congr := by
    intro m m' h
    have h : Agree 12 m m' := h
    simp (disch := decide) only [ofMemory, headerOfMemory_congr h, h _]

/-- The decoder of a `system_event_message` is the run of its layout. -/
theorem SystemEventMessage.decode_eq (size : Nat) (m : Memory) :
    decode true size m 0 = layout.run size m := by
  simp [decode, Layout.run, layout, fields, ofMemory]

/-- The fields of a `trade_message`. -/
def TradeMessage.fields : List WireField :=
  headerFields ++ [uint64Field 11, charField buySellIndicatorT 19, uint32Field 20,
    stringField noopValidator 8 24, uint32Field 32, uint64Field 36]

/-- The `trade_message` that the bytes of a buffer spell. -/
def TradeMessage.ofMemory (m : Memory) : TradeMessage where
  header := headerOfMemory m
  orderReferenceNumber := load64 m 11
  buySellIndicator := ⟨(m 19).toNat⟩
  shares := int32 (load32 m 20).toNat
  stock := ShortStringField.assign m 24
  price := (load32 m 32).toNat
  matchNumber := load64 m 36

/-- A `trade_message`: its fields, and what they spell. -/
def TradeMessage.layout : WireLayout TradeMessage where
  fields := fields
  value := ofMemory
  sorted := by decide
  value_congr := by
    intro m m' h
    have h : Agree 44 m m' := h
    simp (disch := decide) only [ofMemory, headerOfMemory_congr h, load64_congr h, load32_congr h,
      h _, assign_congr h]

/-- The decoder of a `trade_message` is the run of its layout. -/
theorem TradeMessage.decode_eq (size : Nat) (m : Memory) :
    decode true size m 0 = layout.run size m := by
  simp [decode, Layout.run, layout, fields, ofMemory]

end JayBeams.Itch5.Wire
