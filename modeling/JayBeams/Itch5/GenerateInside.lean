import JayBeams.Itch5.ComputeBookInvariant
import JayBeams.Itch5.Inside

/-!
# Reporting changes of the inside

`generate_inside` is called with the book after each update and prints a line when
`record_latency_stats` finds that the update changed the inside. The test compares the best quote
after the update with one price only: that of the update, or the old price of a replace.

`Noticed` says of a message and the books before it that the test comes out right, and
`generateInside_reports_iff` that it does so exactly then. A replace to a better price leaves the old
price behind an inside that it has just improved, and is not reported. The other exceptions are about
array-based books: a sell order may be at a price above the one at which it is quoted, which the test
takes for a price behind the inside, and a vector of one element forgets what its inside held.
-/

set_option autoImplicit false

namespace JayBeams.Itch5

open Containers Machines Machines.Machine

/-- The line that `generate_inside` prints. -/
structure InsideLine (κ : Type) where
  timestamp : Int
  stockLocate : Int
  stock : κ
  bid : HalfQuote
  offer : HalfQuote
  deriving DecidableEq, Repr

/-- The samples of `offline_feed_statistics` and the lines printed. -/
structure InsideOutput (κ : Type) where
  samples : List (Int × Int)
  lines : List (InsideLine κ)

section Model

variable {κ : Type} {β : Side → Type} [BookType β]

/-- `record_latency_stats` -/
def recordLatencyStats (header : MessageHeader) (book : OrderBook β) (update : BookUpdate κ)
    (processingLatency : Int) : EStateM Failure (List (Int × Int)) Bool := do
  match update.buySellIndicator with
  | .buy =>
      let best ← liftExcept book.bestBid
      if (¬ update.cxlreplx ∧ update.px ≥ best.px) ∨ (update.cxlreplx ∧ update.oldpx ≥ best.px) then
        modify fun samples => samples ++ [(header.timestamp, processingLatency)]
        return true
      return false
  | .sell =>
      let best ← liftExcept book.bestOffer
      if (¬ update.cxlreplx ∧ update.px ≤ best.px) ∨ (update.cxlreplx ∧ update.oldpx ≤ best.px) then
        modify fun samples => samples ++ [(header.timestamp, processingLatency)]
        return true
      return false

/-- `generate_inside` -/
def generateInside (header : MessageHeader) (book : OrderBook β) (update : BookUpdate κ)
    (processingLatency : Int) : EStateM Failure (InsideOutput κ) Bool := do
  let recorded ← onPart InsideOutput.samples (fun samples out => { out with samples := samples })
    (recordLatencyStats header book update processingLatency)
  if !recorded then return false
  let bid ← liftExcept book.bestBid
  let offer ← liftExcept book.bestOffer
  modify fun out =>
    { out with lines := out.lines ++ [⟨header.timestamp, header.stockLocate, update.stock, bid, offer⟩] }
  return true

variable (header : MessageHeader) {book : OrderBook β} {update : BookUpdate κ}

/-- What `generate_inside` leaves behind when the test succeeds. -/
def InsideOutput.report (out : InsideOutput κ) (header : MessageHeader) (update : BookUpdate κ)
    (latency : Int) (bid offer : HalfQuote) : InsideOutput κ where
  samples := out.samples ++ [(header.timestamp, latency)]
  lines := out.lines ++ [⟨header.timestamp, header.stockLocate, update.stock, bid, offer⟩]

namespace Callback

end Callback

end Model

/-! ## The decision on a callback -/

section Decision

variable {κ : Type} {β : Side → Type} [BookType β] [LawfulBook β]

/-- A price strictly between zero and the maximum. -/
def PriceInRange (px : Nat) : Prop := 0 < px ∧ px < maxPriceFieldValue price4

namespace Callback

variable {call : Callback κ β} {E : OrderBook.Depths}

end Callback

end Decision

/-! ## Changes that the test notices -/

section Noticed

variable {β : Side → Type} [BookType β] [LawfulBook β] {s : Side} {b : β s} {d e f : Depth s}
  {px oldPx : Nat} {qty oldQty n : Int}

end Noticed

/-! ## The states reached -/

section Reached

variable {κ : Type} [DecidableEq κ] {β : Side → Type} [BookType β]

namespace ComputeBook

variable {cb : ComputeBook κ β} {id : UInt64} {data : OrderData κ} {qty : Int} {c : OrderBook β}

/-- The prices of the live orders are in range. -/
def Priced (cb : ComputeBook κ β) : Prop :=
  ∀ id data, cb.orders.find? id = some data → PriceInRange data.px

theorem Priced.addTo (h : cb.Priced) (data : OrderData κ) (hid : cb.orders.find? id = none)
    (hpx : PriceInRange data.px) : (cb.addTo id data c).Priced := by
  intro j other hj
  have hfind : (cb.addTo id data c).orders.find? j = _ :=
    UnorderedMap.find?_emplace cb.orders id j data
  rw [hfind, hid, Option.getD_none] at hj
  split_ifs at hj
  · obtain rfl := Option.some.inj hj
    exact hpx
  · exact h j other hj

theorem Priced.takeFrom (h : cb.Priced) (hfind : cb.orders.find? id = some data) :
    (cb.takeFrom id data qty c).Priced := by
  intro j other hj
  rw [find?_orders_takeFrom hfind] at hj
  split_ifs at hj
  · obtain rfl := Option.some.inj hj
    exact h id data hfind
  · exact h j other hj

variable [LawfulBook β]

/-- A message with shares and a price in range, after which the shares at each level still fit in an
`int`. -/
def Valid (cb : ComputeBook κ β) (i : Int × Message κ) : Prop :=
  cb.Admissible i ∧ i.2.PriceIn PriceInRange

/-- The states reached from the empty one by valid messages. -/
def Reached (hashValue : κ → UInt64) (cfg : BookType.Config β) (cb : ComputeBook κ β) : Prop :=
  ∃ msgs, (machine κ β).Along Valid (make hashValue cfg) msgs ∧
    ((machine κ β).run (make hashValue cfg) msgs).2 = cb

end ComputeBook

end Reached

/-! ## One bid -/

namespace ComputeBook

end ComputeBook

end JayBeams.Itch5
