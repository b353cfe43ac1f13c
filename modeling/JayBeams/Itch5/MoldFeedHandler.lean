import JayBeams.Itch5.ComputeBookInvariant
import JayBeams.Itch5.Inside

/-!
# The inside feed of the feed handler

The feed handler builds array-based books and sends the best bid and the best offer of a book to its
output socket after an update, unless the best price of the updated side is not the price of the
update. A subscriber keeps the last quotes received for each security.

`Subscribed` says that the subscriber holds the quotes of every book. A message keeps it when it is
`Sendable`: its shares and its price are in range, the totals fit, and it `PassesFilter`, which leaves
out the reductions that empty the inside, the replaces that take the inside away, and the prices that
the book does not quote as they are. Over a run of such messages the subscriber is never behind
(`published_run`).
-/

set_option autoImplicit false

namespace JayBeams.Itch5

open Containers Machines Machines.Machine

/-- `inside_levels_update<1>` -/
structure InsideLevelsUpdate (κ : Type) where
  sequenceNumber : UInt32
  marketId : Int
  feedId : Int
  sourceId : Int
  feedhandlerTs : Int
  exchangeTs : Int
  feedTs : Int
  securityId : Int
  bidQty : UInt32
  bidPx : UInt32
  offerQty : UInt32
  offerPx : UInt32
  mic : String
  feedName : String
  sourceName : String
  securityNormalized : κ
  securityFeed : κ

/-- The feed handler: its books and what it sent to the output socket. -/
structure MoldFeedHandler (κ : Type) [BEq κ] where
  books : ComputeBook κ ArrayBasedBookSide
  sent : List (InsideLevelsUpdate κ)

/-- The best quote on a side of a book. -/
def OrderBook.bestOf (book : OrderBook ArrayBasedBookSide) (s : Side) : Except Failure HalfQuote :=
  match s with
  | .buy => book.bestBid
  | .sell => book.bestOffer

namespace MoldFeedHandler

/-- The message that `send_inside_levels_update` prepares. -/
def insideLevelsUpdate {κ : Type} (now : Int) (header : MessageHeader) (update : BookUpdate κ)
    (bid offer : HalfQuote) : InsideLevelsUpdate κ where
  sequenceNumber := 0
  marketId := 0
  feedId := 0
  sourceId := 0
  feedhandlerTs := now
  exchangeTs := header.timestamp
  feedTs := header.timestamp
  securityId := header.stockLocate
  bidQty := UInt32.ofInt bid.qty
  bidPx := UInt32.ofNat bid.px
  offerQty := UInt32.ofInt offer.qty
  offerPx := UInt32.ofNat offer.px
  mic := "NASD"
  feedName := "NASD-PITCH-5x"
  sourceName := "NASD-PITCH-5x"
  securityNormalized := update.stock
  securityFeed := update.stock

/-- `send_inside_levels_update`, at a time since midnight. -/
def sendInsideLevelsUpdate {κ : Type} (now : Int) (header : MessageHeader)
    (updatedBook : OrderBook ArrayBasedBookSide) (update : BookUpdate κ) :
    EStateM Failure (List (InsideLevelsUpdate κ)) Unit := do
  -- filter out messages that do not update the inside
  let best ← liftExcept (updatedBook.bestOf update.buySellIndicator)
  if best.px ≠ update.px then return ()
  let bid ← liftExcept updatedBook.bestBid
  let offer ← liftExcept updatedBook.bestOffer
  modify fun sent => sent ++ [insideLevelsUpdate now header update bid offer]

section Send

variable {κ : Type}

/-- The bid and the offer in a message of the inside feed. -/
def quotes (msg : InsideLevelsUpdate κ) : HalfQuote × HalfQuote :=
  (⟨msg.bidPx.toNat, msg.bidQty.toNat⟩, ⟨msg.offerPx.toNat, msg.offerQty.toNat⟩)

theorem quotes_insideLevelsUpdate (now : Int) (header : MessageHeader) (update : BookUpdate κ)
    {bid offer : HalfQuote}
    (hbid : bid.px < 4294967296 ∧ 0 ≤ bid.qty ∧ bid.qty < 4294967296)
    (hoffer : offer.px < 4294967296 ∧ 0 ≤ offer.qty ∧ offer.qty < 4294967296) :
    quotes (insideLevelsUpdate now header update bid offer) = (bid, offer) := by
  have hpx : ∀ p : Nat, p < 4294967296 → (UInt32.ofNat p).toNat = p := fun p hp => by
    rw [UInt32.toNat_ofNat']
    exact Nat.mod_eq_of_lt hp
  have hqty : ∀ q : Int, 0 ≤ q → q < 4294967296 → ((UInt32.ofInt q).toNat : Int) = q := by
    intro q h0 h1
    rw [UInt32.ofInt, UInt32.toNat_ofNat']
    omega
  simp only [quotes, insideLevelsUpdate, hpx _ hbid.1, hpx _ hoffer.1, hqty _ hbid.2.1 hbid.2.2,
    hqty _ hoffer.2.1 hoffer.2.2]

/-- Everything is sent but what the filter drops. -/
theorem sendInsideLevelsUpdate_run (now : Int) (header : MessageHeader) (update : BookUpdate κ)
    {book : OrderBook ArrayBasedBookSide} {best bid offer : HalfQuote}
    (hbest : book.bestOf update.buySellIndicator = .ok best) (hbid : book.bestBid = .ok bid)
    (hoffer : book.bestOffer = .ok offer) (sent : List (InsideLevelsUpdate κ)) :
    (sendInsideLevelsUpdate now header book update).run sent =
      if best.px ≠ update.px then .ok () sent
      else .ok () (sent ++ [insideLevelsUpdate now header update bid offer]) := by
  simp only [sendInsideLevelsUpdate, EStateM.run_bind, liftExcept_run_ok hbest]
  split_ifs
  · rfl
  · simp only [EStateM.run_bind, liftExcept_run_ok hbid, liftExcept_run_ok hoffer]
    rfl

end Send

variable {κ : Type} [DecidableEq κ]

/-- A message received: its time of reception, its time since midnight, and itself. -/
abbrev Received (κ : Type) := Int × Int × Message κ

/-- Handle a message and pass what the books call back with to the output. -/
def process (i : Received κ) : EStateM Failure (MoldFeedHandler κ) Unit := do
  let call? ← onPart MoldFeedHandler.books (fun books self => { self with books := books })
    (ComputeBook.handleMessage i.1 i.2.2)
  match call? with
  | none => pure ()
  | some call =>
      onPart MoldFeedHandler.sent (fun sent self => { self with sent := sent })
        (sendInsideLevelsUpdate i.2.1 call.header call.updatedBook call.update)

/-- The feed handler before it receives anything. -/
def make (hashValue : κ → UInt64) (cfg : ArrayBasedConfig) : MoldFeedHandler κ :=
  ⟨ComputeBook.make hashValue cfg, []⟩

/-- The feed handler as a machine. -/
def machine (κ : Type) [DecidableEq κ] :
    Machine (MoldFeedHandler κ) (Received κ) (Except Failure Unit) :=
  Machine.ofAction process

/-! ## The subscriber -/

/-- The quotes that a subscriber holds for a security after a sequence of messages. -/
def held (sent : List (InsideLevelsUpdate κ)) (stock : κ) : HalfQuote × HalfQuote :=
  sent.foldl (fun held msg => if msg.securityFeed = stock then quotes msg else held)
    (emptyBid, emptyOffer)

/-- The subscriber holds the best bid and the best offer of every book. -/
def Subscribed (self : MoldFeedHandler κ) : Prop :=
  ∀ stock, (self.books.bookOf stock).bestBid = .ok (held self.sent stock).1 ∧
    (self.books.bookOf stock).bestOffer = .ok (held self.sent stock).2

@[simp] theorem held_append (sent : List (InsideLevelsUpdate κ)) (msg : InsideLevelsUpdate κ)
    (stock : κ) :
    held (sent ++ [msg]) stock =
      if msg.securityFeed = stock then quotes msg else held sent stock := by
  simp [held]

end MoldFeedHandler

/-! ## What the filter drops -/

section Filter

variable {s : Side} {d e f : Depth s} {k n px : Nat} {qty : Int}

/-- The best quote is at the price of an update whose level is the inside. -/
theorem quote_px_eq (hbest : e.bestKey = some (level px)) (htick : TickAligned px) :
    (s.quote levelPrice e.first?).px = px := by
  obtain ⟨x, hfirst⟩ := Depth.bestKey_eq_some_iff_first?.1 hbest
  rw [hfirst]
  exact levelPrice_level htick

theorem first?_eq_of_added_dropped (hrest : ∀ i, i ≠ level px → e.find? i = d.find? i)
    (hpresent : e.find? (level px) ≠ none) (hseen : d.AtOrBetter (level px) → TickAligned px)
    (hdropped : (s.quote levelPrice e.first?).px ≠ px) : d.first? = e.first? := by
  apply Depth.first?_eq_of_added hrest hpresent
  intro hbest
  -- the level is the inside afterwards, so nothing was better before
  have hat : d.AtOrBetter (level px) := by
    refine Depth.atOrBetter_iff_forall.2 fun i hi => ?_
    rcases eq_or_ne i (level px) with rfl | hne
    · exact s.not_better_self _
    · exact Depth.not_better_bestKey hbest (by rwa [hrest i hne])
  exact hdropped (quote_px_eq hbest (hseen hat))

theorem first?_reduceQty_of_not_best (hbest : d.bestKey ≠ some k) (qty : Int) :
    (d.reduceQty k qty).first? = d.first? := by
  by_cases hk : d.find? k = none
  · rw [Depth.reduceQty_of_none hk]
  · exact Depth.first?_reduceQty_of_ne hk hbest qty

theorem first?_eq_of_reduced_dropped (hd : d.Positive) (hq : 0 < qty) (hfit : FitsInt qty)
    (hseen : d.bestKey = some (level px) → TickAligned px ∧ qty < d.qtyAt (level px))
    (hdropped : (s.quote levelPrice (d.reduceQty (level px) qty).first?).px ≠ px) :
    d.first? = (d.reduceQty (level px) qty).first? := by
  refine (first?_reduceQty_of_not_best (fun hbest => ?_) qty).symm
  obtain ⟨htick, hlt⟩ := hseen hbest
  have hkeep := Depth.bestKey_reduceQty hd hq hfit (Or.inr hlt)
  exact hdropped (quote_px_eq (hkeep.trans hbest) htick)

/-- No level better than `n` remains after a reduction. -/
theorem atOrBetter_reduceQty_iff (hd : d.Positive) (hq : 0 < qty) (hfit : FitsInt qty) :
    (d.reduceQty k qty).AtOrBetter n ↔
      ∀ j, s.Better j n → d.qtyAt j ≤ if j = k then qty else 0 := by
  have hpos := Depth.positive_reduceQty hd k hq hfit
  have hzero : ∀ j, (d.reduceQty k qty).find? j = none ↔ d.qtyAt j ≤ if j = k then qty else 0 := by
    intro j
    have hnonneg := Depth.qtyAt_nonneg hd j
    rw [← Depth.qtyAt_eq_zero_iff hpos, Depth.qtyAt_reduceQty hd k j hq hfit]
    split_ifs with hjk
    · rw [hjk]
      omega
    · omega
  rw [Depth.atOrBetter_iff_forall]
  constructor
  · intro h j hj
    by_contra hleft
    exact h j (fun hnone => hleft ((hzero j).1 hnone)) hj
  · intro h j hj hbetter
    exact hj ((hzero j).2 (h j hbetter))

theorem first?_eq_of_replaced_dropped
    (hrest : ∀ i, i ≠ level px → f.find? i = (d.reduceQty k qty).find? i)
    (hpresent : f.find? (level px) ≠ none)
    (hold : d.bestKey = some k → (d.reduceQty k qty).AtOrBetter (level px))
    (hseen : (d.reduceQty k qty).AtOrBetter (level px) → TickAligned px)
    (hdropped : (s.quote levelPrice f.first?).px ≠ px) : d.first? = f.first? := by
  have hadded := first?_eq_of_added_dropped hrest hpresent hseen hdropped
  refine (first?_reduceQty_of_not_best (fun hbest => ?_) qty).symm.trans hadded
  have hat := hold hbest
  -- the new level is the inside, and its price is quoted
  have hbest' : f.bestKey = some (level px) := by
    refine (Depth.atOrBetter_iff_bestKey hpresent).1 (Depth.atOrBetter_iff_forall.2 fun i hi => ?_)
    rcases eq_or_ne i (level px) with rfl | hne
    · exact s.not_better_self _
    · rw [hrest i hne] at hi
      exact Depth.atOrBetter_iff_forall.1 hat i hi
  exact hdropped (quote_px_eq hbest' (hseen hat))

end Filter

/-! ## The condition -/

namespace ArrayBasedBookSide

variable {s : Side} {b : ArrayBasedBookSide s} {d : Depth s} {k : Nat}

theorem Represents.inside_eq_iff (h : Represents b d) (h0 : 0 < k) (hk : k < levelMax) :
    b.tkInside = k ↔ d.bestKey = some k := by
  rw [h.inside_eq]
  cases d.bestKey with
  | none => exact iff_of_false (fun he => ne_tkEmptyQuote h0 hk he.symm) (by simp)
  | some i => simp

theorem Represents.not_better_inside_iff (h : Represents b d) (hk : k ≤ levelMax) :
    ¬ s.Better b.tkInside k ↔ d.AtOrBetter k := by
  rw [h.inside_eq, Depth.AtOrBetter]
  cases d.bestKey with
  | none =>
      refine iff_of_true ?_ (by simp)
      cases s with
      | buy => exact Nat.not_lt_zero k
      | sell => exact not_lt.2 hk
  | some i => simp

/-- An order that reaches the inside is at a price that the book quotes as it is. -/
def AddSeen (b : ArrayBasedBookSide s) (px : Nat) : Prop :=
  ¬ s.Better b.tkInside (level px) → TickAligned px

/-- A reduction at the inside leaves something there, at a price that the book quotes as it is. -/
def ReduceSeen (b : ArrayBasedBookSide s) (px : Nat) (qty : Int) : Prop :=
  b.tkInside = level px → TickAligned px ∧ qty < b.content (level px)

/-- Nothing better than a level remains when shares are taken from another one. -/
def Clear (b : ArrayBasedBookSide s) (tkPx oldTkPx : Nat) (oldQty : Int) : Prop :=
  ∀ j, s.Better j tkPx → b.content j ≤ if j = oldTkPx then oldQty else 0

/-- The new order of a replace reaches the inside if the old one was there, and if it does is at a
price that the book quotes as it is. -/
def ReplaceSeen (b : ArrayBasedBookSide s) (oldPx : Nat) (oldQty : Int) (px : Nat) : Prop :=
  (b.tkInside = level oldPx → b.Clear (level px) (level oldPx) oldQty) ∧
    (b.Clear (level px) (level oldPx) oldQty → TickAligned px)

end ArrayBasedBookSide

namespace MoldFeedHandler

variable {κ : Type} [DecidableEq κ]

/-- The message updates its book so that the filter lets the change of the inside through. -/
structure PassesFilter (cb : ComputeBook κ ArrayBasedBookSide) (msg : Message κ) : Prop where
  add : ∀ m, msg.newOrder? = some m → cb.orders.find? m.orderReferenceNumber = none →
    ((cb.bookOf m.stock).side m.buySellIndicator).AddSeen m.price
  reduce : ∀ header id shares data, msg.reduction? = some (header, id, shares) →
    cb.orders.find? id = some data →
    ((cb.bookOf data.stock).side data.buySellIndicator).ReduceSeen data.px
      (ComputeBook.reducedShares data shares)
  replace : ∀ m data, msg = .orderReplace m →
    cb.orders.find? m.originalOrderReferenceNumber = some data →
    cb.orders.find? m.newOrderReferenceNumber = none →
    ((cb.bookOf data.stock).side data.buySellIndicator).ReplaceSeen data.px data.qty m.price

/-- A message that leaves the subscribers up to date: its share count is positive and fits in an
`int`, its price is strictly between 0 and the largest one, the shares at each price level fit in an
`int` after it, and the filter lets the change of the inside through. -/
structure Sendable (self : MoldFeedHandler κ) (i : Received κ) : Prop where
  admissible : self.books.Admissible (i.1, i.2.2)
  passesFilter : PassesFilter self.books i.2.2

/-! ## One step -/

section Step

variable {cb cb' : ComputeBook κ ArrayBasedBookSide} {recvts : Int} {msg : Message κ}
  {call : Callback κ ArrayBasedBookSide}

/-- The book of the callback before and after the message: the update is dropped only if the inside
of its side stays. -/
structure Updates (cb cb' : ComputeBook κ ArrayBasedBookSide)
    (call : Callback κ ArrayBasedBookSide) (D E : OrderBook.Depths) : Prop where
  before : (cb.bookOf call.update.stock).Shows D
  after : call.updatedBook.Shows E
  other : ∀ t, t ≠ call.update.buySellIndicator → E t = D t
  bookOf_eq : ∀ stock,
    cb'.bookOf stock = if stock = call.update.stock then call.updatedBook else cb.bookOf stock
  first?_eq : (call.update.buySellIndicator.quote levelPrice
      (E call.update.buySellIndicator).first?).px ≠ call.update.px →
    (D call.update.buySellIndicator).first? = (E call.update.buySellIndicator).first?

theorem updates_of_outcome (hc : cb.Consistent) (hpass : PassesFilter cb msg)
    (hpx : msg.PriceIn (LawfulBook.Accepts ArrayBasedBookSide))
    (ho : ComputeBook.Outcome cb recvts msg (.ok (some call) cb')) :
    ∃ D E, Updates cb cb' call D E := by
  cases ho with
  | added m c D E hmsg hid hD hfit hadd =>
      have hat := (hD.shows m.buySellIndicator).not_better_inside_iff
        (Nat.le_of_lt (level_lt_levelMax (hpx.of_newOrder hmsg).2))
      refine ⟨D, E, hD.shows, hadd.shows, hadd.other, fun stock => ?_, fun hdropped => ?_⟩
      · exact ComputeBook.bookOf_addTo ..
      · refine first?_eq_of_added_dropped hadd.rest hadd.present (fun h => ?_) hdropped
        -- The filter drops no message at the inside.
        exact hpass.add m hmsg hid (hat.2 h)
  | reduced header id shares data c D E hmsg hfind hq hD hlevel hred =>
      have hlive := hc.live id data hfind
      have hinside := (hD.shows data.buySellIndicator).inside_eq_iff (level_pos hlive.accepts.1)
        (level_lt_levelMax hlive.accepts.2)
      have hle := ComputeBook.reducedShares_le data shares
      have hqfit : FitsInt (ComputeBook.reducedShares data shares) := by
        have := hlive.fits
        unfold FitsInt at *
        omega
      refine ⟨D, E, hD.shows, hred.shows, hred.other, fun stock => ?_, fun hdropped => ?_⟩
      · exact ComputeBook.bookOf_takeFrom hlive.hasBook ..
      · simp only [BookUpdate.ofLevel, hred.reduced] at hdropped ⊢
        refine first?_eq_of_reduced_dropped (hD.shows _).positive hq hqfit (fun h => ?_) hdropped
        have hseen := hpass.reduce header id shares data hmsg hfind (hinside.2 h)
        rwa [(hD.shows data.buySellIndicator).content_eq] at hseen
  | replaced m data b c D E F hmsg hfind hnew hD hlevel hred hfit hadd =>
      subst hmsg
      have hlive := hc.live _ data hfind
      have hinside := (hD.shows data.buySellIndicator).inside_eq_iff (level_pos hlive.accepts.1)
        (level_lt_levelMax hlive.accepts.2)
      -- What the filter says about the book before the replacement, said of the depth.
      have hclear := atOrBetter_reduceQty_iff (k := level data.px) (n := level m.price)
        (hD.shows data.buySellIndicator).positive hlive.qty_pos hlive.fits
      have hseen := hpass.replace m data rfl hfind hnew
      rw [ArrayBasedBookSide.ReplaceSeen, ArrayBasedBookSide.Clear] at hseen
      simp only [(hD.shows data.buySellIndicator).content_eq] at hseen
      rw [← hclear, hinside] at hseen
      refine ⟨D, F, hD.shows, hadd.shows, fun t ht => ?_, fun stock => ?_, fun hdropped => ?_⟩
      · exact (hadd.other t ht).trans (hred.other t ht)
      · rw [ComputeBook.bookOf_addTo, ComputeBook.bookOf_takeFrom hlive.hasBook]
        split_ifs <;> rfl
      · refine first?_eq_of_replaced_dropped (k := level data.px) ?_ hadd.present
          hseen.1 hseen.2 hdropped
        have hrest := hadd.rest
        rwa [hred.reduced] at hrest

/-- The best quote fits in the fields of a message. -/
theorem quote_fits {s : Side} {b : ArrayBasedBookSide s} {d : Depth s} (h : b.Represents d) :
    (s.quote levelPrice d.first?).px < 4294967296 ∧ 0 ≤ (s.quote levelPrice d.first?).qty ∧
      (s.quote levelPrice d.first?).qty < 4294967296 := by
  cases hfirst : d.first? with
  | none => cases s <;> exact ⟨by decide, by decide, by decide⟩
  | some a =>
      have hfind := (OrderedMap.first?_eq_some_iff.1 hfirst).1
      obtain ⟨hpos, -, hfit⟩ := h.positive a.1 a.2 hfind
      have hkey := (h.keys a.1 (by simp [hfind])).2
      have hpx : levelPrice a.1 ≤ 2000000000 := by
        have hlt := levelPrice_lt_iff.2 hkey
        have hmax : levelPrice levelMax = 2000000000 := by decide
        omega
      simp only [Side.quote]
      exact ⟨by omega, by omega, by omega⟩

/-- What is asked of a step: the subscriber holds the quotes of every book afterwards, and a change of
a best bid or offer was sent. -/
def Published (before after : MoldFeedHandler κ) : Prop :=
  Subscribed after ∧
    ((∃ stock, (after.books.bookOf stock).bestBid ≠ (before.books.bookOf stock).bestBid ∨
        (after.books.bookOf stock).bestOffer ≠ (before.books.bookOf stock).bestOffer) →
      ∃ msg, after.sent = before.sent ++ [msg])

/-- A step that leaves the quotes of every book. -/
theorem published_of_same {before after : MoldFeedHandler κ} (hs : Subscribed before)
    (hsent : after.sent = before.sent)
    (hsame : ∀ stock, (after.books.bookOf stock).bestBid = (before.books.bookOf stock).bestBid ∧
      (after.books.bookOf stock).bestOffer = (before.books.bookOf stock).bestOffer) :
    Published before after := by
  constructor
  · intro stock
    rw [(hsame stock).1, (hsame stock).2, hsent]
    exact hs stock
  · rintro ⟨stock, hbid | hoffer⟩
    · exact absurd (hsame stock).1 hbid
    · exact absurd (hsame stock).2 hoffer

/-- A message sent or dropped leaves the subscriber with the quotes of the book. -/
theorem published_of_updates {D E : OrderBook.Depths} (hup : Updates cb cb' call D E)
    (now : Int) {sent : List (InsideLevelsUpdate κ)} (hs : Subscribed ⟨cb, sent⟩) :
    ∃ sent', (sendInsideLevelsUpdate now call.header call.updatedBook call.update).run sent =
        .ok () sent' ∧ Published ⟨cb, sent⟩ ⟨cb', sent'⟩ := by
  have hbid : call.updatedBook.bestBid = .ok (Side.buy.quote levelPrice (E .buy).first?) :=
    LawfulBook.bestQuote_eq (hup.after .buy)
  have hoffer : call.updatedBook.bestOffer = .ok (Side.sell.quote levelPrice (E .sell).first?) :=
    LawfulBook.bestQuote_eq (hup.after .sell)
  have hbest : call.updatedBook.bestOf call.update.buySellIndicator = .ok
      (call.update.buySellIndicator.quote levelPrice (E call.update.buySellIndicator).first?) := by
    cases call.update.buySellIndicator with
    | buy => exact hbid
    | sell => exact hoffer
  have hrun := sendInsideLevelsUpdate_run now call.header call.update hbest hbid hoffer sent
  split_ifs at hrun with hdropped
  · refine ⟨sent, hrun, published_of_same hs rfl fun stock => ?_⟩
    have hfirst : ∀ t, (D t).first? = (E t).first? := by
      intro t
      rcases eq_or_ne t call.update.buySellIndicator with rfl | ht
      · exact hup.first?_eq hdropped
      · rw [hup.other t ht]
    simp only [hup.bookOf_eq]
    split_ifs with hstock
    · -- the book of the update has the quotes that it had
      subst hstock
      rw [hbid, hoffer, ← hfirst, ← hfirst]
      exact ⟨(LawfulBook.bestQuote_eq (hup.before .buy)).symm,
        (LawfulBook.bestQuote_eq (hup.before .sell)).symm⟩
    · exact ⟨rfl, rfl⟩
  · refine ⟨_, hrun, fun stock => ?_, fun _ => ⟨_, rfl⟩⟩
    have hquotes := quotes_insideLevelsUpdate now call.header call.update
      (quote_fits (hup.after .buy)) (quote_fits (hup.after .sell))
    simp only [hup.bookOf_eq, held_append]
    rw [show (insideLevelsUpdate now call.header call.update _ _).securityFeed =
      call.update.stock from rfl]
    by_cases hstock : stock = call.update.stock
    · rw [if_pos hstock, if_pos hstock.symm, hquotes]
      exact ⟨hbid, hoffer⟩
    · rw [if_neg hstock, if_neg (Ne.symm hstock)]
      exact hs stock

/-- One message. -/
theorem published_step (self : MoldFeedHandler κ) (i : Received κ) (hc : self.books.Consistent)
    (hs : Subscribed self) (hi : Sendable self i) :
    ((machine κ).step self i).2.books.Consistent ∧ Published self ((machine κ).step self i).2 := by
  obtain ⟨hadm, hpass⟩ := hi
  obtain ⟨ho, hcons⟩ := hadm.outcome hc
  rw [ComputeBook.machine_step_state] at hcons
  have hpx := hadm.2.1
  rw [machine, ofAction_step_state, process]
  simp only [EStateM.run_bind]
  cases hres : (ComputeBook.handleMessage i.1 i.2.2).run self.books with
  | error e cb' =>
      rw [hres] at ho hcons
      rw [onPart_run_error _ _ hres]
      refine ⟨hcons, published_of_same hs rfl fun stock => ?_⟩
      cases ho with
      | failed id data qty f hfind hq hle hinexact =>
          -- A reduction that raised put the book back as it was.
          have hbook := ComputeBook.bookOf_takeFrom (hc.live id data hfind).hasBook id qty
            (self.books.bookOf data.stock) stock
          have hsame : (self.books.takeFrom id data qty (self.books.bookOf data.stock)).bookOf stock =
              self.books.bookOf stock := by
            rw [hbook]
            split_ifs with hstock
            · rw [hstock]
            · rfl
          simp only [finalState, hsame]
          exact ⟨trivial, trivial⟩
  | ok call? cb' =>
      rw [hres] at ho hcons
      rw [onPart_run_ok _ _ hres]
      cases call? with
      | none =>
          refine ⟨hcons, published_of_same hs rfl fun stock => ?_⟩
          have hsame : cb'.bookOf stock = self.books.bookOf stock := by
            cases ho with
            | ignored => rfl
            | listed m hmsg => exact ComputeBook.bookOf_listed self.books m.stock stock
          show (cb'.bookOf stock).bestBid = _ ∧ (cb'.bookOf stock).bestOffer = _
          rw [hsame]
          exact ⟨rfl, rfl⟩
      | some call =>
          -- The book has changed, and the callback sends what the subscribers see of it.
          obtain ⟨D, E, hup⟩ := updates_of_outcome hc hpass hpx ho
          obtain ⟨sent', hrun, hpub⟩ := published_of_updates hup i.2.1 hs
          have hpart := onPart_run_ok MoldFeedHandler.sent
            (fun sent self => { self with sent := sent }) (s := { self with books := cb' }) hrun
          simp only [hpart]
          exact ⟨hcons, hpub⟩

end Step

/-! ## Whole runs -/

theorem subscribed_make (hashValue : κ → UInt64) (cfg : ArrayBasedConfig)
    (hcfg : cfg.validate = true) : Subscribed (make hashValue cfg) := by
  intro stock
  have hshows := OrderBook.shows_make (β := ArrayBasedBookSide) hcfg
  exact ⟨LawfulBook.bestQuote_eq (hshows .buy), LawfulBook.bestQuote_eq (hshows .sell)⟩

/-- Over a run of `Sendable` messages each change of a best bid or offer is sent, and the subscriber
holds the quotes of every book after each message. -/
theorem published_run (hashValue : κ → UInt64) (cfg : ArrayBasedConfig)
    (hcfg : cfg.validate = true) (msgs : List (Received κ))
    (hmsgs : (machine κ).Along Sendable (make hashValue cfg) msgs) :
    Subscribed (make hashValue cfg) ∧
      (machine κ).Along (fun self i => Published self ((machine κ).step self i).2)
        (make hashValue cfg) msgs := by
  have hinit := subscribed_make hashValue cfg hcfg
  have hstep : ∀ (self : MoldFeedHandler κ) i, self.books.Consistent ∧ Subscribed self →
      Sendable self i →
      (((machine κ).step self i).2.books.Consistent ∧ Subscribed ((machine κ).step self i).2) ∧
        Published self ((machine κ).step self i).2 := by
    intro self i h hi
    obtain ⟨hcons, hpub⟩ := published_step self i h.1 h.2 hi
    exact ⟨⟨hcons, hpub.1⟩, hpub⟩
  exact ⟨hinit, Along.of_invariant hstep hmsgs
    ⟨ComputeBook.consistent_make hashValue hcfg, hinit⟩⟩

/-! ## One bid -/

/-- A bid of 100 shares at 10 dollars. -/
def bid : Received Nat := (0, 0, .addOrder ⟨⟨65, 7, 0, 1⟩, 1, .buy, 100, 7, 100000⟩)

theorem passesFilter_bid : PassesFilter (make UInt64.ofNat ⟨2⟩).books bid.2.2 := by
  constructor
  · rintro m hm - -
    obtain rfl := Option.some.inj hm
    exact fun _ => rfl
  · rintro _ _ _ _ hm
    simp [bid, Message.reduction?] at hm
  · rintro _ _ hm
    simp [bid] at hm

theorem sendable_bid : Sendable (make UInt64.ofNat ⟨2⟩) bid := by
  refine ⟨⟨⟨by decide, by decide⟩, ⟨by decide, by decide⟩, ?_⟩, passesFilter_bid⟩
  exact totalsFit_of_single 1 ⟨7, .buy, 100000, 100⟩ rfl (by decide)

/-- An execution of 40 shares of the bid. -/
theorem published_run_partial_fill :
    Published ((machine Nat).run (make UInt64.ofNat ⟨2⟩) [bid]).2
      ((machine Nat).run (make UInt64.ofNat ⟨2⟩)
        [bid, (1, 1, .orderExecuted ⟨⟨69, 7, 0, 2⟩, 1, 40⟩)]).2 := by
  refine (published_run UInt64.ofNat ⟨2⟩ (by decide)
    [bid, (1, 1, .orderExecuted ⟨⟨69, 7, 0, 2⟩, 1, 40⟩)]
    ⟨sendable_bid, ⟨⟨⟨by decide, by decide⟩, trivial, ?_⟩, ?_⟩, trivial⟩).2.2.1
  · exact totalsFit_of_single 1 ⟨7, .buy, 100000, 60⟩ rfl (by decide)
  · constructor
    · rintro m hm
      simp [Message.newOrder?] at hm
    · rintro header id shares data hm hfind
      simp only [Message.reduction?, Option.some.injEq, Prod.mk.injEq] at hm
      obtain ⟨-, rfl, rfl⟩ := hm
      obtain rfl := Option.some.inj hfind
      exact fun _ => ⟨fun _ => rfl, by decide⟩
    · rintro _ _ hm
      simp at hm

/-- The bid deleted: the best bid is gone and the subscriber still holds it. -/
theorem deleted_bid_not_sent :
    ∃ (self : MoldFeedHandler Nat) (i : Received Nat),
      ((machine Nat).run (make UInt64.ofNat ⟨2⟩) [bid]).2 = self ∧ Subscribed self ∧
      self.books.Admissible (i.1, i.2.2) ∧ ¬ Published self ((machine Nat).step self i).2 := by
  have hcfg : ArrayBasedConfig.validate ⟨2⟩ = true := rfl
  have hbid := published_step (make UInt64.ofNat ⟨2⟩) bid
    (ComputeBook.consistent_make UInt64.ofNat hcfg) (subscribed_make UInt64.ofNat ⟨2⟩ hcfg)
    sendable_bid
  refine ⟨_, (1, 1, .orderDelete ⟨⟨68, 7, 0, 2⟩, 1⟩), rfl, hbid.2.1, ⟨trivial, trivial, ?_⟩, ?_⟩
  · intro stock s k
    exact show FitsInt 0 by decide
  · intro h
    exact absurd (h.1 7).1 (by decide)

end MoldFeedHandler

end JayBeams.Itch5
