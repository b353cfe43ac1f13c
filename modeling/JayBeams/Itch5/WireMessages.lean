import JayBeams.Itch5.WireFields

/-!
# Messages on the wire

The messages of ITCH-5.0 as they are decoded from a buffer, with the characters that their
`char_list_field`s accept. Each decoder goes through the fields of its message in the order of their
offsets.
-/

set_option autoImplicit false

namespace JayBeams.Itch5.Wire

open Bytes

/-! ## Fields -/

/-- `noop_validator` -/
def noopValidator : List UInt8 → Bool := fun _ => true

/-- `stock_t` -/
abbrev StockT := ShortStringField 8

/-- `mpid_t` -/
abbrev MpidT := ShortStringField 4

/-- `reason_t` -/
abbrev ReasonT := ShortStringField 4

/-- `issue_subtype_t` -/
abbrev IssueSubtypeT := ShortStringField 2

/-- The keys of `valid_subtypes` -/
def validSubtypes : List String := ["A", "AI", "B", "C", "CB", "CF", "CL", "CM", "CO", "CT", "CU",
  "CW", "D", "E", "EG", "EI", "EM", "EN", "EU", "F", "FI", "FL", "G", "I", "IR", "IW", "IX", "J",
  "L", "LL", "M", "MF", "ML", "MT", "N", "O", "P", "PP", "PU", "Q", "R", "RC", "RF", "RT", "RU",
  "S", "SC", "SI", "T", "TC", "TU", "U", "V", "W", "WC", "X", "Y", "Z"]

/-- `validate_issue_subtype` -/
def validateIssueSubtype (value : List UInt8) : Bool :=
  validSubtypes.any fun s => s.toList.map (fun c => UInt8.ofNat c.toNat) == value

/-- `buy_sell_indicator_t` -/
def buySellIndicatorT : CharList := ⟨['S', 'B'], by simp, by simp⟩

/-- `cross_type_t` -/
def crossTypeT : CharList := ⟨['O', 'C', 'H', 'I'], by simp, by simp⟩

/-- `ipo_quotation_release_qualifier_t` -/
def ipoQuotationReleaseQualifierT : CharList := ⟨['A', 'C'], by simp, by simp⟩

/-- `primary_market_maker_t` -/
def primaryMarketMakerT : CharList := ⟨['Y', 'N'], by simp, by simp⟩

/-- `market_maker_mode_t` -/
def marketMakerModeT : CharList := ⟨['N', 'P', 'S', 'R', 'L'], by simp, by simp⟩

/-- `market_participant_state_t` -/
def marketParticipantStateT : CharList := ⟨['A', 'E', 'W', 'S', 'D'], by simp, by simp⟩

/-- `breached_level_t` -/
def breachedLevelT : CharList := ⟨['1', '2', '3'], by simp, by simp⟩

/-- `imbalance_direction_t` -/
def imbalanceDirectionT : CharList := ⟨['B', 'S', 'N', 'O'], by simp, by simp⟩

/-- `price_variation_indicator_t` -/
def priceVariationIndicatorT : CharList := ⟨['L', '1', '2', '3', '4', '5', '6', '7', '8', '9', 'A',
  'B', 'C', ' '], by simp, by simp⟩

/-- `printable_t` -/
def printableT : CharList := ⟨['Y', 'N'], by simp, by simp⟩

/-- `reg_sho_action_t` -/
def regShoActionT : CharList := ⟨['0', '1', '2'], by simp, by simp⟩

/-- `market_category_t` -/
def marketCategoryT : CharList := ⟨['Q', 'G', 'S', 'N', 'A', 'P', 'Z', ' '], by simp, by simp⟩

/-- `financial_status_indicator_t` -/
def financialStatusIndicatorT : CharList := ⟨['D', 'E', 'Q', 'S', 'G', 'H', 'J', 'K', 'C', 'N',
  ' '], by simp, by simp⟩

/-- `roundlots_only_t` -/
def roundlotsOnlyT : CharList := ⟨['Y', 'N'], by simp, by simp⟩

/-- `issue_classification_t` -/
def issueClassificationT : CharList := ⟨['A', 'B', 'C', 'F', 'I', 'L', 'N', 'O', 'P', 'Q', 'R', 'S',
  'T', 'U', 'V', 'W'], by simp, by simp⟩

/-- `authenticity_t` -/
def authenticityT : CharList := ⟨['P', 'T'], by simp, by simp⟩

/-- `short_sale_threshold_indicator_t` -/
def shortSaleThresholdIndicatorT : CharList := ⟨['Y', 'N', ' '], by simp, by simp⟩

/-- `ipo_flag_t` -/
def ipoFlagT : CharList := ⟨['Y', 'N', ' '], by simp, by simp⟩

/-- `luld_reference_price_tier_t` -/
def luldReferencePriceTierT : CharList := ⟨['1', '2', ' '], by simp, by simp⟩

/-- `etp_flag_t` -/
def etpFlagT : CharList := ⟨['Y', 'N', ' '], by simp, by simp⟩

/-- `inverse_indicator_t` -/
def inverseIndicatorT : CharList := ⟨['Y', 'N'], by simp, by simp⟩

/-- `trading_state_t` -/
def tradingStateT : CharList := ⟨['H', 'P', 'Q', 'T'], by simp, by simp⟩

/-- `event_code_t` -/
def eventCodeT : CharList := ⟨['O', 'S', 'Q', 'M', 'E', 'C'], by simp, by simp⟩

/-! ## Messages -/

/-- `add_order_message` -/
structure AddOrderMessage where
  header : MessageHeader
  orderReferenceNumber : UInt64
  buySellIndicator : CharListField buySellIndicatorT
  shares : Int
  stock : StockT
  price : Nat

/-- `decoder<V, add_order_message>::r` -/
def AddOrderMessage.decode (validate : Bool) (size : Nat) (buf : Memory) (off : Nat) :
    Except Failure AddOrderMessage := do
  let header ← Decoder.messageHeader validate size buf (off + 0)
  let orderReferenceNumber ← Decoder.uint64 validate size buf (off + 11)
  let buySellIndicator ← Decoder.charListField buySellIndicatorT validate size buf (off + 19)
  let shares ← Decoder.int validate size buf (off + 20)
  let stock ← ShortStringField.decode noopValidator validate size buf (off + 24)
  let price ← Decoder.price4 validate size buf (off + 32)
  return ⟨header, orderReferenceNumber, buySellIndicator, shares, stock, price⟩

/-- `add_order_mpid_message` -/
structure AddOrderMpidMessage extends AddOrderMessage where
  attribution : MpidT

/-- `decoder<V, add_order_mpid_message>::r` -/
def AddOrderMpidMessage.decode (validate : Bool) (size : Nat) (buf : Memory) (off : Nat) :
    Except Failure AddOrderMpidMessage := do
  let x ← AddOrderMessage.decode validate size buf (off + 0)
  let attribution ← ShortStringField.decode noopValidator validate size buf (off + 36)
  return { x with attribution := attribution }

/-- `broken_trade_message` -/
structure BrokenTradeMessage where
  header : MessageHeader
  matchNumber : UInt64

/-- `decoder<V, broken_trade_message>::r` -/
def BrokenTradeMessage.decode (validate : Bool) (size : Nat) (buf : Memory) (off : Nat) :
    Except Failure BrokenTradeMessage := do
  let header ← Decoder.messageHeader validate size buf (off + 0)
  let matchNumber ← Decoder.uint64 validate size buf (off + 11)
  return ⟨header, matchNumber⟩

/-- `cross_trade_message` -/
structure CrossTradeMessage where
  header : MessageHeader
  shares : UInt64
  stock : StockT
  crossPrice : Nat
  matchNumber : UInt64
  crossType : CharListField crossTypeT

/-- `decoder<V, cross_trade_message>::r` -/
def CrossTradeMessage.decode (validate : Bool) (size : Nat) (buf : Memory) (off : Nat) :
    Except Failure CrossTradeMessage := do
  let header ← Decoder.messageHeader validate size buf (off + 0)
  let shares ← Decoder.uint64 validate size buf (off + 11)
  let stock ← ShortStringField.decode noopValidator validate size buf (off + 19)
  let crossPrice ← Decoder.price4 validate size buf (off + 27)
  let matchNumber ← Decoder.uint64 validate size buf (off + 31)
  let crossType ← Decoder.charListField crossTypeT validate size buf (off + 39)
  return ⟨header, shares, stock, crossPrice, matchNumber, crossType⟩

/-- `ipo_quoting_period_update_message` -/
structure IpoQuotingPeriodUpdateMessage where
  header : MessageHeader
  stock : StockT
  ipoQuotationReleaseTime : SecondsField
  ipoQuotationReleaseQualifier : CharListField ipoQuotationReleaseQualifierT
  ipoPrice : Nat

/-- `decoder<V, ipo_quoting_period_update_message>::r` -/
def IpoQuotingPeriodUpdateMessage.decode (validate : Bool) (size : Nat) (buf : Memory) (off : Nat) :
    Except Failure IpoQuotingPeriodUpdateMessage := do
  let header ← Decoder.messageHeader validate size buf (off + 0)
  let stock ← ShortStringField.decode noopValidator validate size buf (off + 11)
  let ipoQuotationReleaseTime ← Decoder.secondsField validate size buf (off + 19)
  let ipoQuotationReleaseQualifier ←
    Decoder.charListField ipoQuotationReleaseQualifierT validate size buf (off + 23)
  let ipoPrice ← Decoder.price4 validate size buf (off + 24)
  return ⟨header, stock, ipoQuotationReleaseTime, ipoQuotationReleaseQualifier, ipoPrice⟩

/-- `market_participant_position_message` -/
structure MarketParticipantPositionMessage where
  header : MessageHeader
  mpid : MpidT
  stock : StockT
  primaryMarketMaker : CharListField primaryMarketMakerT
  marketMakerMode : CharListField marketMakerModeT
  marketParticipantState : CharListField marketParticipantStateT

/-- `decoder<V, market_participant_position_message>::r` -/
def MarketParticipantPositionMessage.decode (validate : Bool) (size : Nat) (buf : Memory) (off : Nat) :
    Except Failure MarketParticipantPositionMessage := do
  let header ← Decoder.messageHeader validate size buf (off + 0)
  let mpid ← ShortStringField.decode noopValidator validate size buf (off + 11)
  let stock ← ShortStringField.decode noopValidator validate size buf (off + 15)
  let primaryMarketMaker ← Decoder.charListField primaryMarketMakerT validate size buf (off + 23)
  let marketMakerMode ← Decoder.charListField marketMakerModeT validate size buf (off + 24)
  let marketParticipantState ←
    Decoder.charListField marketParticipantStateT validate size buf (off + 25)
  return ⟨header, mpid, stock, primaryMarketMaker, marketMakerMode, marketParticipantState⟩

/-- `mwcb_breach_message` -/
structure MwcbBreachMessage where
  header : MessageHeader
  breachedLevel : CharListField breachedLevelT

/-- `decoder<V, mwcb_breach_message>::r` -/
def MwcbBreachMessage.decode (validate : Bool) (size : Nat) (buf : Memory) (off : Nat) :
    Except Failure MwcbBreachMessage := do
  let header ← Decoder.messageHeader validate size buf (off + 0)
  let breachedLevel ← Decoder.charListField breachedLevelT validate size buf (off + 11)
  return ⟨header, breachedLevel⟩

/-- `mwcb_decline_level_message` -/
structure MwcbDeclineLevelMessage where
  header : MessageHeader
  level1 : Nat
  level2 : Nat
  level3 : Nat

/-- `decoder<V, mwcb_decline_level_message>::r` -/
def MwcbDeclineLevelMessage.decode (validate : Bool) (size : Nat) (buf : Memory) (off : Nat) :
    Except Failure MwcbDeclineLevelMessage := do
  let header ← Decoder.messageHeader validate size buf (off + 0)
  let level1 ← Decoder.price8 validate size buf (off + 11)
  let level2 ← Decoder.price8 validate size buf (off + 19)
  let level3 ← Decoder.price8 validate size buf (off + 27)
  return ⟨header, level1, level2, level3⟩

/-- `net_order_imbalance_indicator_message` -/
structure NetOrderImbalanceIndicatorMessage where
  header : MessageHeader
  pairedShares : UInt64
  imbalanceShares : UInt64
  imbalanceDirection : CharListField imbalanceDirectionT
  stock : StockT
  farPrice : Nat
  nearPrice : Nat
  currentReferencePrice : Nat
  crossType : CharListField crossTypeT
  priceVariationIndicator : CharListField priceVariationIndicatorT

/-- `decoder<V, net_order_imbalance_indicator_message>::r` -/
def NetOrderImbalanceIndicatorMessage.decode (validate : Bool) (size : Nat) (buf : Memory) (off : Nat) :
    Except Failure NetOrderImbalanceIndicatorMessage := do
  let header ← Decoder.messageHeader validate size buf (off + 0)
  let pairedShares ← Decoder.uint64 validate size buf (off + 11)
  let imbalanceShares ← Decoder.uint64 validate size buf (off + 19)
  let imbalanceDirection ← Decoder.charListField imbalanceDirectionT validate size buf (off + 27)
  let stock ← ShortStringField.decode noopValidator validate size buf (off + 28)
  let farPrice ← Decoder.price4 validate size buf (off + 36)
  let nearPrice ← Decoder.price4 validate size buf (off + 40)
  let currentReferencePrice ← Decoder.price4 validate size buf (off + 44)
  let crossType ← Decoder.charListField crossTypeT validate size buf (off + 48)
  let priceVariationIndicator ←
    Decoder.charListField priceVariationIndicatorT validate size buf (off + 49)
  return ⟨header, pairedShares, imbalanceShares, imbalanceDirection, stock, farPrice, nearPrice,
    currentReferencePrice, crossType, priceVariationIndicator⟩

/-- `order_cancel_message` -/
structure OrderCancelMessage where
  header : MessageHeader
  orderReferenceNumber : UInt64
  canceledShares : UInt32

/-- `decoder<V, order_cancel_message>::r` -/
def OrderCancelMessage.decode (validate : Bool) (size : Nat) (buf : Memory) (off : Nat) :
    Except Failure OrderCancelMessage := do
  let header ← Decoder.messageHeader validate size buf (off + 0)
  let orderReferenceNumber ← Decoder.uint64 validate size buf (off + 11)
  let canceledShares ← Decoder.uint32 validate size buf (off + 19)
  return ⟨header, orderReferenceNumber, canceledShares⟩

/-- `order_delete_message` -/
structure OrderDeleteMessage where
  header : MessageHeader
  orderReferenceNumber : UInt64

/-- `decoder<V, order_delete_message>::r` -/
def OrderDeleteMessage.decode (validate : Bool) (size : Nat) (buf : Memory) (off : Nat) :
    Except Failure OrderDeleteMessage := do
  let header ← Decoder.messageHeader validate size buf (off + 0)
  let orderReferenceNumber ← Decoder.uint64 validate size buf (off + 11)
  return ⟨header, orderReferenceNumber⟩

/-- `order_executed_message` -/
structure OrderExecutedMessage where
  header : MessageHeader
  orderReferenceNumber : UInt64
  executedShares : UInt32
  matchNumber : UInt64

/-- `decoder<V, order_executed_message>::r` -/
def OrderExecutedMessage.decode (validate : Bool) (size : Nat) (buf : Memory) (off : Nat) :
    Except Failure OrderExecutedMessage := do
  let header ← Decoder.messageHeader validate size buf (off + 0)
  let orderReferenceNumber ← Decoder.uint64 validate size buf (off + 11)
  let executedShares ← Decoder.uint32 validate size buf (off + 19)
  let matchNumber ← Decoder.uint64 validate size buf (off + 23)
  return ⟨header, orderReferenceNumber, executedShares, matchNumber⟩

/-- `order_executed_price_message` -/
structure OrderExecutedPriceMessage extends OrderExecutedMessage where
  printable : CharListField printableT
  executionPrice : Nat

/-- `decoder<V, order_executed_price_message>::r` -/
def OrderExecutedPriceMessage.decode (validate : Bool) (size : Nat) (buf : Memory) (off : Nat) :
    Except Failure OrderExecutedPriceMessage := do
  let x ← OrderExecutedMessage.decode validate size buf (off + 0)
  let printable ← Decoder.charListField printableT validate size buf (off + 31)
  let executionPrice ← Decoder.price4 validate size buf (off + 32)
  return { x with printable := printable, executionPrice := executionPrice }

/-- `order_replace_message` -/
structure OrderReplaceMessage where
  header : MessageHeader
  originalOrderReferenceNumber : UInt64
  newOrderReferenceNumber : UInt64
  shares : Int
  price : Nat

/-- `decoder<V, order_replace_message>::r` -/
def OrderReplaceMessage.decode (validate : Bool) (size : Nat) (buf : Memory) (off : Nat) :
    Except Failure OrderReplaceMessage := do
  let header ← Decoder.messageHeader validate size buf (off + 0)
  let originalOrderReferenceNumber ← Decoder.uint64 validate size buf (off + 11)
  let newOrderReferenceNumber ← Decoder.uint64 validate size buf (off + 19)
  let shares ← Decoder.int validate size buf (off + 27)
  let price ← Decoder.price4 validate size buf (off + 31)
  return ⟨header, originalOrderReferenceNumber, newOrderReferenceNumber, shares, price⟩

/-- `reg_sho_restriction_message` -/
structure RegShoRestrictionMessage where
  header : MessageHeader
  stock : StockT
  regShoAction : CharListField regShoActionT

/-- `decoder<V, reg_sho_restriction_message>::r` -/
def RegShoRestrictionMessage.decode (validate : Bool) (size : Nat) (buf : Memory) (off : Nat) :
    Except Failure RegShoRestrictionMessage := do
  let header ← Decoder.messageHeader validate size buf (off + 0)
  let stock ← ShortStringField.decode noopValidator validate size buf (off + 11)
  let regShoAction ← Decoder.charListField regShoActionT validate size buf (off + 19)
  return ⟨header, stock, regShoAction⟩

/-- `stock_directory_message` -/
structure StockDirectoryMessage where
  header : MessageHeader
  stock : StockT
  marketCategory : CharListField marketCategoryT
  financialStatusIndicator : CharListField financialStatusIndicatorT
  roundLotSize : Int
  roundlotsOnly : CharListField roundlotsOnlyT
  issueClassification : CharListField issueClassificationT
  issueSubtype : IssueSubtypeT
  authenticity : CharListField authenticityT
  shortSaleThresholdIndicator : CharListField shortSaleThresholdIndicatorT
  ipoFlag : CharListField ipoFlagT
  luldReferencePriceTier : CharListField luldReferencePriceTierT
  etpFlag : CharListField etpFlagT
  etpLeverageFactor : Int
  inverseIndicator : CharListField inverseIndicatorT

/-- `decoder<V, stock_directory_message>::r` -/
def StockDirectoryMessage.decode (validate : Bool) (size : Nat) (buf : Memory) (off : Nat) :
    Except Failure StockDirectoryMessage := do
  let header ← Decoder.messageHeader validate size buf (off + 0)
  let stock ← ShortStringField.decode noopValidator validate size buf (off + 11)
  let marketCategory ← Decoder.charListField marketCategoryT validate size buf (off + 19)
  let financialStatusIndicator ←
    Decoder.charListField financialStatusIndicatorT validate size buf (off + 20)
  let roundLotSize ← Decoder.int validate size buf (off + 21)
  let roundlotsOnly ← Decoder.charListField roundlotsOnlyT validate size buf (off + 25)
  let issueClassification ← Decoder.charListField issueClassificationT validate size buf (off + 26)
  let issueSubtype ← ShortStringField.decode validateIssueSubtype validate size buf (off + 27)
  let authenticity ← Decoder.charListField authenticityT validate size buf (off + 29)
  let shortSaleThresholdIndicator ←
    Decoder.charListField shortSaleThresholdIndicatorT validate size buf (off + 30)
  let ipoFlag ← Decoder.charListField ipoFlagT validate size buf (off + 31)
  let luldReferencePriceTier ←
    Decoder.charListField luldReferencePriceTierT validate size buf (off + 32)
  let etpFlag ← Decoder.charListField etpFlagT validate size buf (off + 33)
  let etpLeverageFactor ← Decoder.int validate size buf (off + 34)
  let inverseIndicator ← Decoder.charListField inverseIndicatorT validate size buf (off + 38)
  return ⟨header, stock, marketCategory, financialStatusIndicator, roundLotSize, roundlotsOnly,
    issueClassification, issueSubtype, authenticity, shortSaleThresholdIndicator, ipoFlag,
    luldReferencePriceTier, etpFlag, etpLeverageFactor, inverseIndicator⟩

/-- `stock_trading_action_message` -/
structure StockTradingActionMessage where
  header : MessageHeader
  stock : StockT
  tradingState : CharListField tradingStateT
  reserved : Int
  reason : ReasonT

/-- `decoder<V, stock_trading_action_message>::r` -/
def StockTradingActionMessage.decode (validate : Bool) (size : Nat) (buf : Memory) (off : Nat) :
    Except Failure StockTradingActionMessage := do
  let header ← Decoder.messageHeader validate size buf (off + 0)
  let stock ← ShortStringField.decode noopValidator validate size buf (off + 11)
  let tradingState ← Decoder.charListField tradingStateT validate size buf (off + 19)
  let reserved ← Decoder.uint8 validate size buf (off + 20)
  let reason ← ShortStringField.decode noopValidator validate size buf (off + 21)
  return ⟨header, stock, tradingState, reserved.toNat, reason⟩

/-- `system_event_message` -/
structure SystemEventMessage where
  header : MessageHeader
  eventCode : CharListField eventCodeT

/-- `decoder<V, system_event_message>::r` -/
def SystemEventMessage.decode (validate : Bool) (size : Nat) (buf : Memory) (off : Nat) :
    Except Failure SystemEventMessage := do
  let header ← Decoder.messageHeader validate size buf (off + 0)
  let eventCode ← Decoder.charListField eventCodeT validate size buf (off + 11)
  return ⟨header, eventCode⟩

/-- `trade_message` -/
structure TradeMessage where
  header : MessageHeader
  orderReferenceNumber : UInt64
  buySellIndicator : CharListField buySellIndicatorT
  shares : Int
  stock : StockT
  price : Nat
  matchNumber : UInt64

/-- `decoder<V, trade_message>::r` -/
def TradeMessage.decode (validate : Bool) (size : Nat) (buf : Memory) (off : Nat) :
    Except Failure TradeMessage := do
  let header ← Decoder.messageHeader validate size buf (off + 0)
  let orderReferenceNumber ← Decoder.uint64 validate size buf (off + 11)
  let buySellIndicator ← Decoder.charListField buySellIndicatorT validate size buf (off + 19)
  let shares ← Decoder.int validate size buf (off + 20)
  let stock ← ShortStringField.decode noopValidator validate size buf (off + 24)
  let price ← Decoder.price4 validate size buf (off + 32)
  let matchNumber ← Decoder.uint64 validate size buf (off + 36)
  return ⟨header, orderReferenceNumber, buySellIndicator, shares, stock, price, matchNumber⟩

end JayBeams.Itch5.Wire
