import JayBeams.Itch5.ComputeBookInvariant
import Mathlib.Data.List.Induction
import Mathlib.Logic.Function.Basic

/-!
# The callbacks as a change log

A program that sees nothing but the `book_update`s can rebuild the books: it puts the quantity of each
update at its price and, for a replace, takes the old quantity away from the old price (`rebuilt`).
The map-based books are what such a program rebuilds, after every message
(`callbacks_are_change_log`). A message that does not change a book makes no callback.
-/

set_option autoImplicit false

namespace JayBeams.Itch5

open Containers Machines Machines.Machine

/-! ## Quantities put at a level -/

namespace Depth

variable {s : Side} {d e : Depth s}

/-- Put a quantity at a key, which may be negative; the key goes when nothing remains there. -/
def putQty (d : Depth s) (k : Nat) (qty : Int) : Depth s :=
  if d.qtyAt k + qty = 0 then d.erase k else (d.emplace k 0).modify k fun x => x + qty

/-- No key is there with nothing. -/
def NoZero (d : Depth s) : Prop := ∀ k, d.find? k ≠ some 0

theorem find?_putQty (d : Depth s) (k j : Nat) (qty : Int) :
    (d.putQty k qty).find? j =
      if j = k then if d.qtyAt k + qty = 0 then none else some (d.qtyAt k + qty)
      else d.find? j := by
  rw [putQty]
  by_cases hjk : j = k
  · subst hjk
    rw [if_pos rfl]
    split_ifs with hzero
    · rw [OrderedMap.find?_erase, if_pos rfl]
    · rw [OrderedMap.find?_modify, if_pos rfl, OrderedMap.find?_emplace, if_pos rfl]
      rfl
  · rw [if_neg hjk]
    split_ifs
    · rw [OrderedMap.find?_erase, if_neg hjk]
    · rw [OrderedMap.find?_modify, if_neg hjk, OrderedMap.find?_emplace, if_neg hjk]

theorem qtyAt_putQty (d : Depth s) (k j : Nat) (qty : Int) :
    (d.putQty k qty).qtyAt j = if j = k then d.qtyAt k + qty else d.qtyAt j := by
  rw [qtyAt, find?_putQty]
  split_ifs with hjk hzero
  · exact hzero.symm
  · rfl
  · rfl

theorem NoZero.putQty (hd : d.NoZero) (k : Nat) (qty : Int) : (d.putQty k qty).NoZero := by
  intro j
  rw [find?_putQty]
  split_ifs with hjk hzero
  · intro h
    cases h
  · exact fun h => hzero (Option.some.inj h)
  · exact hd j

theorem Positive.noZero (hd : d.Positive) : d.NoZero := fun k h => absurd (hd k 0 h).1 (lt_irrefl 0)

/-- Depths without zeros are the same when they hold the same quantities. -/
theorem ext_qtyAt (hd : d.NoZero) (he : e.NoZero) (h : ∀ k, d.qtyAt k = e.qtyAt k) : d = e := by
  have hfind : ∀ {d : Depth s}, d.NoZero → ∀ k,
      d.find? k = if d.qtyAt k = 0 then none else some (d.qtyAt k) := by
    intro d hd k
    cases hk : d.find? k with
    | none => simp [qtyAt, hk]
    | some x =>
        have hx : x ≠ 0 := fun hx => hd k (hx ▸ hk)
        simp [qtyAt, hk, hx]
  apply OrderedMap.ext_find?
  intro k
  rw [hfind hd, hfind he, h]

/-- An addition puts the quantity at its key. -/
theorem addQty_eq_putQty (hd : d.Positive) {k : Nat} {qty : Int} (hq : 0 < qty)
    (hfit : FitsInt (d.qtyAt k + qty)) : d.addQty k qty = d.putQty k qty := by
  apply ext_qtyAt (positive_addQty hd hq hfit).noZero (hd.noZero.putQty k qty)
  intro j
  rw [qtyAt_addQty, qtyAt_putQty, int32_of_fits hfit]

/-- A reduction that its level covers puts the opposite quantity there. -/
theorem reduceQty_eq_putQty (hd : d.Positive) {k : Nat} {qty : Int} (hq : 0 < qty)
    (hle : qty ≤ d.qtyAt k) : d.reduceQty k qty = d.putQty k (-qty) := by
  have hfit : FitsInt qty := by
    have hfitk := fitsInt_qtyAt hd k
    unfold FitsInt at *
    omega
  apply ext_qtyAt (positive_reduceQty hd k hq hfit).noZero (hd.noZero.putQty k (-qty))
  intro j
  rw [qtyAt_reduceQty hd k j hq hfit, qtyAt_putQty, max_eq_right (by omega), Int.sub_eq_add_neg]

/-- Quantities may be put in any order. -/
theorem putQty_comm (hd : d.NoZero) (j k : Nat) (a b : Int) :
    (d.putQty j a).putQty k b = (d.putQty k b).putQty j a := by
  apply ext_qtyAt ((hd.putQty j a).putQty k b) ((hd.putQty k b).putQty j a)
  intro i
  simp only [qtyAt_putQty]
  grind

end Depth

/-! ## Rebuilding the books -/

/-- A side of a map-based book with a quantity put at a price. -/
def MapBasedBookSide.putQty {s : Side} (b : MapBasedBookSide s) (px : Nat) (qty : Int) :
    MapBasedBookSide s :=
  ⟨b.levels.putQty px qty⟩

namespace BookUpdate

variable {κ : Type}

/-- The book with an update applied: the quantity at the price and, for a replace, the old quantity
taken away from the old price. -/
def applyTo (u : BookUpdate κ) (b : OrderBook MapBasedBookSide) : OrderBook MapBasedBookSide :=
  let added := (b.side u.buySellIndicator).putQty u.px u.qty
  b.setSide u.buySellIndicator (if u.cxlreplx then added.putQty u.oldpx (-u.oldqty) else added)

/-- The books of all securities with an update applied to the one that it names. -/
def applyToAll [DecidableEq κ] (books : κ → OrderBook MapBasedBookSide) (u : BookUpdate κ) :
    κ → OrderBook MapBasedBookSide :=
  Function.update books u.stock (u.applyTo (books u.stock))

/-- The books rebuilt from updates, empty at first. -/
def rebuilt [DecidableEq κ] (updates : List (BookUpdate κ)) : κ → OrderBook MapBasedBookSide :=
  updates.foldl applyToAll fun _ => OrderBook.make ()

end BookUpdate

namespace ComputeBook

variable {κ : Type} [DecidableEq κ]

/-- The updates that the callback was invoked with, in the order of the messages. -/
def updatesOf {β : Side → Type} (outputs : List (Except Failure (Option (Callback κ β)))) :
    List (BookUpdate κ) :=
  outputs.filterMap fun
    | .ok (some callback) => some callback.update
    | _ => none

section Updates

variable {β : Side → Type} [BookType β]

/-- The message changes a book: a new order with a fresh id, shares of a live order, or a live order
replaced by one with a fresh id. -/
def Updates (cb : ComputeBook κ β) : Message κ → Prop
  | .addOrder msg => cb.orders.find? msg.orderReferenceNumber = none
  | .addOrderMpid msg => cb.orders.find? msg.orderReferenceNumber = none
  | .orderExecuted msg => cb.orders.find? msg.orderReferenceNumber ≠ none
  | .orderExecutedPrice msg => cb.orders.find? msg.orderReferenceNumber ≠ none
  | .orderCancel msg => cb.orders.find? msg.orderReferenceNumber ≠ none
  | .orderDelete msg => cb.orders.find? msg.orderReferenceNumber ≠ none
  | .orderReplace msg =>
      cb.orders.find? msg.originalOrderReferenceNumber ≠ none ∧
        cb.orders.find? msg.newOrderReferenceNumber = none
  | .stockDirectory _ => False
  | .other _ => False

end Updates

/-! ## Updates and books -/

/-- Books with the same sides are the same. -/
theorem ext_side {β : Side → Type} {b c : OrderBook β} (h : ∀ s, b.side s = c.side s) : b = c := by
  cases b
  cases c
  exact congrArg₂ OrderBook.mk (h .buy) (h .sell)

section Applied

variable {b c : OrderBook MapBasedBookSide} {D E : OrderBook.Depths} {s : Side} {px : Nat}
  {qty : Int}

/-- A book with another depth at one side. -/
theorem eq_setSide {d : Depth s} (hb : b.Shows D) (hc : c.Shows E) (hside : E s = d)
    (hother : ∀ t, t ≠ s → E t = D t) : c = b.setSide s ⟨d⟩ := by
  apply ext_side
  intro t
  rcases eq_or_ne t s with rfl | hts
  · rw [OrderBook.side_setSide_self]
    exact congrArg MapBasedBookSide.mk ((hc t).1.trans hside)
  · rw [OrderBook.side_setSide_of_ne b hts]
    exact congrArg MapBasedBookSide.mk ((hc t).1.trans ((hother t hts).trans (hb t).1.symm))

theorem added_eq (hb : b.Shows D) (h : OrderBook.Added b c D E s px qty) (hq : 0 < qty)
    (hfit : FitsInt ((D s).qtyAt px + qty)) : c = b.setSide s ((b.side s).putQty px qty) := by
  apply eq_setSide hb h.shows _ h.other
  rw [h.exact trivial, Depth.addQty_eq_putQty (hb s).2 hq hfit, (hb s).1]

theorem reduced_eq (hb : b.Shows D) (h : OrderBook.Reduced b c D E s px qty) (hq : 0 < qty)
    (hle : qty ≤ (D s).qtyAt px) : c = b.setSide s ((b.side s).putQty px (-qty)) := by
  apply eq_setSide hb h.shows _ h.other
  rw [h.reduced, Depth.reduceQty_eq_putQty (hb s).2 hq hle, (hb s).1]

theorem setSide_setSide (b : OrderBook MapBasedBookSide) (s : Side) (x y : MapBasedBookSide s) :
    (b.setSide s x).setSide s y = b.setSide s y := by
  cases s <;> rfl

end Applied

variable {cb cb' : ComputeBook κ MapBasedBookSide} {recvts : Int} {msg : Message κ}
  {callback : Callback κ MapBasedBookSide}

/-- The callback gets the book with its update applied, and that is the book kept for the security;
no other book changes. -/
theorem Outcome.applied (h : cb.Consistent) (hshares : msg.SharesInRange)
    (o : Outcome cb recvts msg (.ok (some callback) cb')) :
    callback.updatedBook = callback.update.applyTo (cb.bookOf callback.update.stock) ∧
      ∀ stock, cb'.bookOf stock =
        if stock = callback.update.stock then callback.updatedBook else cb.bookOf stock := by
  cases o with
  | added m c D E hmsg hid hD hfit hadd =>
      have hq := (hshares.of_newOrder hmsg).1
      refine ⟨added_eq hD.shows hadd hq hfit, fun stock => ?_⟩
      exact bookOf_addTo ..
  | reduced header id shares data c D E hmsg hfind hq hD hlevel hred =>
      have hle := (reducedShares_le data shares).trans (hD.level_of_order h hfind trivial)
      refine ⟨reduced_eq hD.shows hred hq hle, fun stock => ?_⟩
      exact bookOf_takeFrom (h.live id data hfind).hasBook ..
  | replaced m data b c D E F hmsg hfind hnew hD hlevel hred hfit hadd =>
      have hlive := h.live _ data hfind
      have hle := hD.level_of_order h hfind trivial
      have hq : 0 < m.shares := by
        subst hmsg
        exact hshares.1
      have hb : b = (cb.bookOf data.stock).setSide data.buySellIndicator
          (((cb.bookOf data.stock).side data.buySellIndicator).putQty data.px (-data.qty)) :=
        reduced_eq hD.shows hred hlive.qty_pos hle
      have hc : c = b.setSide data.buySellIndicator
          ((b.side data.buySellIndicator).putQty m.price m.shares) :=
        added_eq hred.shows hadd hq hfit
      refine ⟨?_, fun stock => ?_⟩
      · -- the old order left the book before the new one came in
        have hpos : ((cb.bookOf data.stock).side data.buySellIndicator).levels.Positive :=
          (hD.shows data.buySellIndicator).1 ▸ (hD.shows data.buySellIndicator).2
        have hswap := congrArg MapBasedBookSide.mk
          (Depth.putQty_comm hpos.noZero data.px m.price (-data.qty) m.shares)
        rw [hb, OrderBook.side_setSide_self, setSide_setSide] at hc
        exact hc.trans (congrArg _ hswap)
      · rw [bookOf_addTo, bookOf_takeFrom hlive.hasBook]
        split_ifs <;> rfl

/-- Without a callback no book changes. -/
theorem Outcome.kept (o : Outcome cb recvts msg (.ok none cb')) (stock : κ) :
    cb'.bookOf stock = cb.bookOf stock := by
  cases o with
  | ignored => rfl
  | listed m hmsg => exact bookOf_listed cb m.stock stock

/-- A message that changes no book makes no callback. -/
theorem handleMessage_of_not_updates (cb : ComputeBook κ MapBasedBookSide) (recvts : Int)
    {msg : Message κ} (h : ¬ cb.Updates msg) :
    ∃ cb', (handleMessage recvts msg).run cb = .ok none cb' := by
  cases msg with
  | addOrder m => exact ⟨cb, handleAddOrder_duplicate h⟩
  | addOrderMpid m => exact ⟨cb, handleAddOrder_duplicate h⟩
  | orderExecuted m => exact ⟨cb, handleOrderReduction_unknown (not_not.1 h)⟩
  | orderExecutedPrice m => exact ⟨cb, handleOrderReduction_unknown (not_not.1 h)⟩
  | orderCancel m => exact ⟨cb, handleOrderReduction_unknown (not_not.1 h)⟩
  | orderDelete m => exact ⟨cb, handleOrderReduction_unknown (not_not.1 h)⟩
  | orderReplace m =>
      refine ⟨cb, handleOrderReplace_ignored ?_⟩
      by_cases hfind : cb.orders.find? m.originalOrderReferenceNumber = none
      · exact .inl hfind
      · exact .inr fun hnew => h ⟨hfind, hnew⟩
  | stockDirectory m => exact ⟨_, rfl⟩
  | other header => exact ⟨cb, rfl⟩

theorem handleAddOrder_ne_none {m : AddOrderMessage κ}
    (h : cb.orders.find? m.orderReferenceNumber = none) :
    (handleAddOrder recvts m).run cb ≠ .ok none cb' := by
  rw [handleAddOrder_run h]
  cases (OrderBook.handleAddOrder m.buySellIndicator m.price m.shares).run (cb.bookOf m.stock) <;>
    exact nofun

theorem handleOrderReduction_ne_none (hcons : cb.Consistent) {header : MessageHeader} {id : UInt64}
    {shares : UInt32} (h : cb.orders.find? id ≠ none) :
    (handleOrderReduction recvts header id shares).run cb ≠ .ok none cb' := by
  obtain ⟨data, hfind⟩ := Option.ne_none_iff_exists'.1 h
  rw [handleOrderReduction_run hfind (hcons.live id data hfind).find?_book]
  cases (OrderBook.handleOrderReduced data.buySellIndicator data.px
    (reducedShares data shares)).run (cb.bookOf data.stock) <;> exact nofun

theorem handleOrderReplace_ne_none (hcons : cb.Consistent) {m : OrderReplaceMessage}
    (h : cb.orders.find? m.originalOrderReferenceNumber ≠ none)
    (hnew : cb.orders.find? m.newOrderReferenceNumber = none) :
    (handleOrderReplace recvts m).run cb ≠ .ok none cb' := by
  obtain ⟨data, hfind⟩ := Option.ne_none_iff_exists'.1 h
  rw [handleOrderReplace_run hfind hnew (hcons.live _ data hfind).find?_book]
  cases (OrderBook.handleOrderReduced data.buySellIndicator data.px data.qty).run
    (cb.bookOf data.stock) with
  | error e b => exact nofun
  | ok r b =>
      simp only []
      cases (OrderBook.handleAddOrder data.buySellIndicator m.price m.shares).run b <;>
        exact nofun

/-- A message that changes a book makes a callback, unless it raises. -/
theorem handleMessage_ne_none (hcons : cb.Consistent) (h : cb.Updates msg) :
    (handleMessage recvts msg).run cb ≠ .ok none cb' := by
  cases msg with
  | addOrder m => exact handleAddOrder_ne_none h
  | addOrderMpid m => exact handleAddOrder_ne_none h
  | orderExecuted m => exact handleOrderReduction_ne_none hcons h
  | orderExecutedPrice m => exact handleOrderReduction_ne_none hcons h
  | orderCancel m => exact handleOrderReduction_ne_none hcons h
  | orderDelete m => exact handleOrderReduction_ne_none hcons h
  | orderReplace m => exact handleOrderReplace_ne_none hcons h.1 h.2
  | stockDirectory m => exact h.elim
  | other header => exact h.elim

/-! ## Runs -/

/-- A message that the map-based books handle ends normally, with one of the outcomes. -/
theorem Admissible.run_ok (h : cb.Consistent) {i : Int × Message κ} (hi : cb.Admissible i) :
    ∃ callback cb', (handleMessage i.1 i.2).run cb = .ok callback cb' ∧
      Outcome cb i.1 i.2 (.ok callback cb') := by
  have ho := (hi.outcome h).1
  cases hrun : (handleMessage i.1 i.2).run cb with
  | ok callback cb' =>
      rw [hrun] at ho
      exact ⟨callback, cb', rfl, ho⟩
  | error e cb' =>
      rw [hrun] at ho
      cases ho with
      | failed id data qty f hfind hq hle hinexact => exact absurd trivial hinexact

omit [DecidableEq κ] in
theorem updatesOf_append (xs ys : List (Except Failure (Option (Callback κ MapBasedBookSide)))) :
    updatesOf (xs ++ ys) = updatesOf xs ++ updatesOf ys :=
  List.filterMap_append

/-- The books after a message are rebuilt from the updates before it and the one that it makes. -/
theorem Outcome.rebuilt_step (h : cb.Consistent) (hshares : msg.SharesInRange)
    {callback : Option (Callback κ MapBasedBookSide)} (o : Outcome cb recvts msg (.ok callback cb'))
    {log : List (BookUpdate κ)} (hlog : ∀ stock, cb.bookOf stock = BookUpdate.rebuilt log stock)
    (stock : κ) :
    cb'.bookOf stock = BookUpdate.rebuilt (log ++ updatesOf [.ok callback]) stock := by
  cases callback with
  | none =>
      rw [o.kept stock, hlog stock]
      exact congrFun (congrArg BookUpdate.rebuilt (List.append_nil log).symm) stock
  | some c =>
      obtain ⟨hbook, hall⟩ := o.applied h hshares
      have hrebuilt : BookUpdate.rebuilt (log ++ updatesOf [.ok (some c)]) =
          BookUpdate.applyToAll (BookUpdate.rebuilt log) c.update := List.foldl_concat ..
      rw [hall stock, hrebuilt, BookUpdate.applyToAll, Function.update_apply]
      split_ifs
      · rw [hbook, hlog]
      · exact hlog stock

/-- After any sequence of messages the books are those rebuilt from the updates. -/
theorem rebuilt_run (hashValue : κ → UInt64) {msgs : List (Int × Message κ)}
    (hadm : (machine κ MapBasedBookSide).Along Admissible (make hashValue ()) msgs) (stock : κ) :
    ((machine κ MapBasedBookSide).run (make hashValue ()) msgs).2.bookOf stock =
      BookUpdate.rebuilt
        (updatesOf ((machine κ MapBasedBookSide).run (make hashValue ()) msgs).1) stock := by
  induction msgs using List.reverseRecOn generalizing stock with
  | nil => rfl
  | append_singleton msgs i ih =>
      rw [along_append] at hadm
      have hcons : ((machine κ MapBasedBookSide).run (make hashValue ()) msgs).2.Consistent :=
        consistent_run trivial hadm.1
      obtain ⟨callback, cb', hrun, ho⟩ := Admissible.run_ok hcons hadm.2.1
      have hstep : (machine κ MapBasedBookSide).step _ i = (.ok callback, cb') :=
        ofAction_step_ok hrun
      rw [run_append, run_cons, hstep, run_nil, updatesOf_append]
      exact ho.rebuilt_step hcons hadm.2.1.1 (ih hadm.1) stock

/-- Handling a message makes one callback when the message changes a book and none otherwise, in which
case all books stay as they are. After each message the books are those rebuilt from the updates so
far, and so is the book that the callback gets. -/
theorem callbacks_are_change_log (hashValue : κ → UInt64) (msgs : List (Int × Message κ))
    (hshares : ∀ i ∈ msgs, i.2.SharesInRange)
    (hfit : (machine κ MapBasedBookSide).Along
      (fun cb i => ((machine κ MapBasedBookSide).step cb i).2.LiveSharesFit)
      (make hashValue ()) msgs) (pre post : List (Int × Message κ)) (i : Int × Message κ)
    (hmsgs : msgs = pre ++ i :: post) :
    let cb := ((machine κ MapBasedBookSide).run (make hashValue ()) pre).2
    let books := BookUpdate.rebuilt
      (updatesOf ((machine κ MapBasedBookSide).run (make hashValue ()) (pre ++ [i])).1)
    ∃ callback cb', (machine κ MapBasedBookSide).step cb i = (.ok callback, cb') ∧
      (callback.isSome ↔ cb.Updates i.2) ∧
      (callback = none → ∀ stock, cb'.bookOf stock = cb.bookOf stock) ∧
      (∀ c, callback = some c → c.updatedBook = books c.update.stock) ∧
      ∀ stock, cb'.bookOf stock = books stock := by
  intro cb books
  have hadm := along_admissible hashValue hshares hfit
  have hprefix : (machine κ MapBasedBookSide).Along Admissible (make hashValue ()) (pre ++ [i]) := by
    rw [hmsgs, List.append_cons] at hadm
    exact ((along_append ..).1 hadm).1
  obtain ⟨hpre, hi, -⟩ := (along_append ..).1 hprefix
  have hcons : cb.Consistent := consistent_run trivial hpre
  obtain ⟨callback, cb', hrun, ho⟩ := Admissible.run_ok hcons hi
  have hstep : (machine κ MapBasedBookSide).step cb i = (.ok callback, cb') := ofAction_step_ok hrun
  have hbooks : ∀ stock, cb'.bookOf stock = books stock := by
    intro stock
    -- The updates rebuild the books of the state that the prefix reaches.
    have hrebuilt := rebuilt_run hashValue hprefix stock
    have hstate : ((machine κ MapBasedBookSide).run (make hashValue ()) (pre ++ [i])).2 = cb' := by
      rw [run_append, run_cons, run_nil]
      exact congrArg Prod.snd hstep
    rwa [hstate] at hrebuilt
  refine ⟨callback, cb', hstep, ?_, ?_, ?_, hbooks⟩
  · constructor
    · intro hsome
      by_contra hnot
      obtain ⟨cb'', hnone⟩ := handleMessage_of_not_updates cb i.1 hnot
      rw [hrun] at hnone
      cases hnone
      cases hsome
    · intro hupdates
      rw [Option.isSome_iff_ne_none]
      rintro rfl
      exact handleMessage_ne_none hcons hupdates hrun
  · rintro rfl
    exact ho.kept
  · rintro c rfl
    obtain ⟨-, hall⟩ := ho.applied hcons hi.1
    rw [← hbooks, hall, if_pos rfl]

/-- An order of 100 shares, replaced by one of 60 at another price. -/
theorem callbacks_are_change_log_replace :
    ∃ callback cb', (machine Nat MapBasedBookSide).step
        ((machine Nat MapBasedBookSide).run (make UInt64.ofNat ())
          [(0, .addOrder ⟨⟨65, 7, 0, 1⟩, 1, .buy, 100, 7, 100000⟩)]).2
        (1, .orderReplace ⟨⟨85, 7, 0, 2⟩, 1, 2, 60, 110000⟩) = (.ok callback, cb') ∧
      callback.isSome ∧
      cb'.bookOf 7 = BookUpdate.rebuilt
        [⟨0, 7, .buy, 100000, 100, false, 0, 0⟩, ⟨1, 7, .buy, 110000, 60, true, 100000, 100⟩] 7 := by
  have h := callbacks_are_change_log UInt64.ofNat
    [(0, .addOrder ⟨⟨65, 7, 0, 1⟩, 1, .buy, 100, 7, 100000⟩),
      (1, .orderReplace ⟨⟨85, 7, 0, 2⟩, 1, 2, 60, 110000⟩)]
    (by simp [Message.SharesInRange, FitsInt]) ?_
    [(0, .addOrder ⟨⟨65, 7, 0, 1⟩, 1, .buy, 100, 7, 100000⟩)] []
    (1, .orderReplace ⟨⟨85, 7, 0, 2⟩, 1, 2, 60, 110000⟩) rfl
  · obtain ⟨callback, cb', hstep, hsome, -, -, hbooks⟩ := h
    exact ⟨callback, cb', hstep, hsome.2 ⟨by decide, by decide⟩, hbooks 7⟩
  · refine ⟨fun stock s px => ?_, fun stock s px => ?_, trivial⟩
    · show FitsInt ((if 7 = stock ∧ Side.buy = s ∧ 100000 = px then 100 else 0) + 0)
      split_ifs <;> decide
    · show FitsInt ((if 7 = stock ∧ Side.buy = s ∧ 110000 = px then 60 else 0) + 0)
      split_ifs <;> decide

end ComputeBook

end JayBeams.Itch5
