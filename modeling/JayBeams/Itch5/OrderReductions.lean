import JayBeams.Itch5.ArrayReductions
import JayBeams.Itch5.ComputeBookSteps

/-!
# Orders that are reduced

An execution or a cancel takes shares from a live order and from the level of the order in its book.
`QuantityBook` is what this relies on: the quantity that a side keeps at each price, and when a
reduction takes exactly its shares from it. Both book types have it, with nothing asked of the
operations before (`SoundBooks`).

The share count of a message is converted to an `int`, and 0 stands for all the shares of the order.
So a message for no shares removes the order, and one for 2^31 shares or more adds shares to it. For
every other count the message takes what it should exactly when the level of the order holds it
(`reducesByShares_iff`).
-/

set_option autoImplicit false

namespace JayBeams.Itch5

open Containers Machines

/-! ## The quantity at a price -/

/-- The quantity that a side keeps at each price. -/
class QuantityBook (β : Side → Type) [BookType β] where
  /-- the configurations that are validated -/
  ValidConfig : BookType.Config β → Prop
  /-- what every operation keeps -/
  Sound : {s : Side} → β s → Prop
  qtyAt : {s : Side} → β s → Nat → Int
  make_sound : ∀ {cfg : BookType.Config β} (s : Side), ValidConfig cfg →
    Sound (BookType.make cfg s)
  add_sound : ∀ {s : Side} {b : β s} (px : Nat) (qty : Int), Sound b →
    (∀ e c, (BookType.addOrder px qty).run b = .error e c → e.isFault = false) →
    Sound (Machine.finalState ((BookType.addOrder px qty).run b))
  reduce_sound : ∀ {s : Side} {b : β s} (px : Nat) (qty : Int), Sound b →
    Sound (Machine.finalState ((BookType.reduceOrder px qty).run b))
  /-- a reduction takes its shares from the level, and adds to none, exactly when the level has
  them -/
  reduce_iff : ∀ {s : Side} {b : β s} {px : Nat} {qty : Int}, Sound b → 0 < qty → FitsInt qty →
    ((∃ r c, (BookType.reduceOrder px qty).run b = .ok r c ∧ qtyAt c px = qtyAt b px - qty ∧
        ∀ p, qtyAt c p ≤ qtyAt b p) ↔ qty ≤ qtyAt b px)

section Reduced

open ArrayBasedBookSide

variable {x qty : Int}

/-- Shares are taken exactly from a quantity that has them. -/
theorem reduced_eq_sub_iff (hx : FitsInt x) (hq : 0 < qty) :
    reduced x qty = x - qty ↔ qty ≤ x := by
  constructor
  · intro h
    have hnonneg : 0 ≤ reduced x qty := by
      rw [reduced]
      split_ifs with hneg
      · exact le_rfl
      · exact Int.not_lt.1 hneg
    omega
  · intro hle
    have hsub : int32 (x - qty) = x - qty := by
      apply int32_of_fits
      unfold FitsInt at *
      omega
    rw [reduced, hsub, if_neg (by omega)]

/-- A change of one level to what is left of it. -/
theorem reduced_levels_iff {f g : Nat → Int} {k : Nat} (hf : FitsInt (f k)) (hq : 0 < qty)
    (hg : ∀ j, g j = if j = k then reduced (f k) qty else f j) :
    (g k = f k - qty ∧ ∀ j, g j ≤ f j) ↔ qty ≤ f k := by
  rw [hg k, if_pos rfl, reduced_eq_sub_iff hf hq]
  constructor
  · exact And.left
  · intro hle
    refine ⟨hle, fun j => ?_⟩
    rw [hg j]
    split_ifs with hj
    · rw [hj, (reduced_eq_sub_iff hf hq).2 hle]
      omega
    · exact le_rfl

end Reduced

namespace MapBasedBookSide

/-- Every quantity in the map is an `int`. -/
def Ints {s : Side} (b : MapBasedBookSide s) : Prop := ∀ k x, b.levels.find? k = some x → FitsInt x

variable {s : Side} {b : MapBasedBookSide s}

theorem Ints.addQty (h : Ints b) (px : Nat) (qty : Int) :
    Ints (⟨b.levels.addQty px qty⟩ : MapBasedBookSide s) := by
  intro k x hx
  rw [Depth.find?_addQty] at hx
  split_ifs at hx with hk
  · cases hx
    exact fitsInt_int32 _
  · exact h k x hx

theorem Ints.reduceQty (h : Ints b) (px : Nat) (qty : Int) :
    Ints (⟨b.levels.reduceQty px qty⟩ : MapBasedBookSide s) := by
  intro k x hx
  rw [Depth.find?_reduceQty] at hx
  split_ifs at hx with hk hrest
  · rw [Option.map_eq_some_iff] at hx
    obtain ⟨y, -, rfl⟩ := hx
    exact fitsInt_int32 _
  · exact h k x hx

theorem Ints.qtyAt (h : Ints b) (k : Nat) : FitsInt (b.levels.qtyAt k) := by
  rw [Depth.qtyAt]
  cases hx : b.levels.find? k with
  | none => decide
  | some x => exact h k x hx

theorem Ints.reduceOrder (h : Ints b) (px : Nat) (qty : Int) :
    Ints (Machine.finalState ((reduceOrder px qty).run b)) := by
  by_cases hf : b.levels.find? px = none
  · rw [reduceOrder_run_none hf]
    exact h
  · rw [reduceOrder_run_some hf]
    exact h.reduceQty px qty

theorem reduceOrder_iff (h : Ints b) {px : Nat} {qty : Int} (hq : 0 < qty) :
    (∃ r c, (reduceOrder px qty).run b = .ok r c ∧
      c.levels.qtyAt px = b.levels.qtyAt px - qty ∧
        ∀ p, c.levels.qtyAt p ≤ b.levels.qtyAt p) ↔ qty ≤ b.levels.qtyAt px := by
  by_cases hf : b.levels.find? px = none
  · have hzero : b.levels.qtyAt px = 0 := by
      rw [Depth.qtyAt, hf, Option.getD_none]
    rw [reduceOrder_run_none hf, hzero]
    constructor
    · rintro ⟨r, c, hrun, -⟩
      cases hrun
    · intro hle
      omega
  · have hiff := reduced_levels_iff (h.qtyAt px) hq
      (ArrayBasedBookSide.qtyAt_reduceQty_reduced hf qty)
    rw [← hiff, reduceOrder_run_some hf]
    constructor
    · rintro ⟨r, c, hrun, hc⟩
      cases hrun
      exact hc
    · intro hc
      exact ⟨_, _, rfl, hc⟩

instance : QuantityBook MapBasedBookSide where
  ValidConfig _ := True
  Sound b := Ints b
  qtyAt b px := b.levels.qtyAt px
  make_sound _ _ k x hx := by cases hx
  add_sound px qty h _ := h.addQty px qty
  reduce_sound px qty h := h.reduceOrder px qty
  reduce_iff h hq _ := reduceOrder_iff h hq

end MapBasedBookSide

namespace ArrayBasedBookSide

variable {s : Side} {b : ArrayBasedBookSide s}

/-- The quantity recorded for a price, zero when the book does not accept it. -/
def qtyAtPrice (b : ArrayBasedBookSide s) (px : Nat) : Int :=
  if px < maxPriceFieldValue price4 then b.recorded (level px) else 0

/-- A level with a quantity is recorded. -/
theorem hasLevel_of_recorded {k : Nat} (h : b.recorded k ≠ 0) : b.HasLevel k := by
  by_contra hno
  obtain ⟨hbottom, htop⟩ : b.bottomLevels.find? k = none ∧ b.topQty k = 0 := by
    simpa only [HasLevel, not_or, not_not] using hno
  apply h
  rw [recorded, htop, Depth.qtyAt, hbottom]
  rfl

theorem reduceOrder_iff (h : Tidy b) (hints : Ints b) {px : Nat} {qty : Int} (hq : 0 < qty) :
    (∃ r c, (reduceOrder px qty).run b = .ok r c ∧
      c.qtyAtPrice px = b.qtyAtPrice px - qty ∧ ∀ p, c.qtyAtPrice p ≤ b.qtyAtPrice p) ↔
        qty ≤ b.qtyAtPrice px := by
  by_cases hpx : px < maxPriceFieldValue price4
  · have hqty : b.qtyAtPrice px = b.recorded (level px) := if_pos hpx
    rcases reduceOrder_run h.window hq hpx with ⟨f, hrun, hstep⟩ | ⟨r, c, hrun, hstep⟩
    · -- the level is not recorded
      have hno : ¬ b.HasLevel (level px) := by
        intro hlevel
        exact Bool.noConfusion ((hstep.hasLevel_iff h).1 hlevel)
      have hzero : b.recorded (level px) = 0 := by
        by_contra hne
        exact hno (hasLevel_of_recorded hne)
      rw [hrun, hqty, hzero]
      constructor
      · rintro ⟨r, c, hok, -⟩
        cases hok
      · intro hle
        omega
    · have hwin : Window c := (hstep.window_kept h.window).1
      have hrec : ∀ k, c.recorded k =
          if k = level px then reduced (b.recorded (level px)) qty else b.recorded k := by
        intro k
        rw [hwin.recorded_eq, h.window.recorded_eq, h.window.recorded_eq]
        exact hstep.content_eq h k
      have hiff := reduced_levels_iff (hints.recorded h.window (level px)) hq hrec
      have hqty' : c.qtyAtPrice px = c.recorded (level px) := if_pos hpx
      rw [hqty]
      constructor
      · rintro ⟨r', c', hok, hlevel, -⟩
        rw [hrun] at hok
        cases hok
        rw [hqty', hrec, if_pos rfl] at hlevel
        exact (reduced_eq_sub_iff (hints.recorded h.window (level px)) hq).1 hlevel
      · intro henough
        obtain ⟨hlevel, hle⟩ := hiff.2 henough
        refine ⟨r, c, hrun, hqty'.trans hlevel, fun p => ?_⟩
        · rw [qtyAtPrice, qtyAtPrice]
          split_ifs
          · exact hle _
          · exact le_rfl
  · have hzero : b.qtyAtPrice px = 0 := if_neg hpx
    rw [reduceOrder_rejected fun hacc => hpx hacc.2, hzero]
    constructor
    · rintro ⟨r, c, hok, -⟩
      cases hok
    · intro hle
      omega

/-- A side that is tidy, with quantities that are integers of the source. -/
structure Sound (b : ArrayBasedBookSide s) : Prop where
  tidy : Tidy b
  ints : Ints b

theorem Sound.addOrder (h : Sound b) (px : Nat) (qty : Int)
    (hfault : ∀ e c, (addOrder px qty).run b = .error e c → e.isFault = false) :
    Sound (Machine.finalState ((addOrder px qty).run b)) := by
  by_cases hop : 0 < qty ∧ px < maxPriceFieldValue price4
  · obtain ⟨hq, hpx⟩ := hop
    have htidy := (addOrder_checked h.tidy px qty).final hfault
    by_cases hsafe : PastEnd s b.maxSize (level px)
    · obtain ⟨e, c, hrun, he⟩ := addOrder_fault h.tidy.window hq hsafe
      exact Bool.noConfusion (he.symm.trans (hfault e c hrun))
    · obtain ⟨r, c, hrun, hstep⟩ := addOrder_run h.tidy.window hq hpx hsafe
      rw [hrun] at htidy ⊢
      exact ⟨htidy, hstep.ints h.ints h.tidy.window (level_lt_levelMax hpx) hsafe⟩
  · rw [addOrder_rejected hop]
    exact h

theorem Sound.reduceOrder (h : Sound b) (px : Nat) (qty : Int) :
    Sound (Machine.finalState ((reduceOrder px qty).run b)) := by
  by_cases hop : 0 < qty ∧ px < maxPriceFieldValue price4
  · rcases reduceOrder_run h.tidy.window hop.1 hop.2 with ⟨f, hrun, hstep⟩ | ⟨r, c, hrun, hstep⟩
    · rw [hrun]
      exact h
    · rw [hrun]
      exact ⟨hstep.tidy h.tidy, hstep.ints h.ints h.tidy.window⟩
  · rw [reduceOrder_rejected hop]
    exact h

instance : QuantityBook ArrayBasedBookSide where
  ValidConfig cfg := cfg.validate = true
  Sound b := b.Sound
  qtyAt b px := b.qtyAtPrice px
  make_sound _ hcfg := ⟨Tidy.make _ hcfg, Ints.make _⟩
  add_sound px qty h hfault := h.addOrder px qty hfault
  reduce_sound px qty h := h.reduceOrder px qty
  reduce_iff h hq _ := reduceOrder_iff h.tidy h.ints hq

end ArrayBasedBookSide

/-! ## Books of two sides -/

namespace OrderBook

variable {β : Side → Type} [BookType β] {s : Side} {px : Nat} {qty : Int}

/-- An addition is one on the side of the order, with the other side unchanged. -/
theorem handleAddOrder_run (b : OrderBook β) :
    (handleAddOrder s px qty).run b =
      match (BookType.addOrder px qty).run (b.side s) with
      | .ok r c => .ok r (b.setSide s c)
      | .error e c => .error e (b.setSide s c) := by
  cases hrun : (BookType.addOrder px qty).run (b.side s) with
  | ok r c => exact handleAddOrder_ok hrun
  | error e c =>
      cases s with
      | buy => exact onPart_run_error _ _ hrun
      | sell => exact onPart_run_error _ _ hrun

/-- And so is a reduction. -/
theorem handleOrderReduced_run (b : OrderBook β) :
    (handleOrderReduced s px qty).run b =
      match (BookType.reduceOrder px qty).run (b.side s) with
      | .ok r c => .ok r (b.setSide s c)
      | .error e c => .error e (b.setSide s c) := by
  cases hrun : (BookType.reduceOrder px qty).run (b.side s) with
  | ok r c => exact handleOrderReduced_ok hrun
  | error e c =>
      cases s with
      | buy => exact onPart_run_error _ _ hrun
      | sell => exact onPart_run_error _ _ hrun

variable [QuantityBook β]

/-- Both sides are sound. -/
def Sound (b : OrderBook β) : Prop := ∀ s, QuantityBook.Sound (b.side s)

variable {b : OrderBook β}

theorem sound_make {cfg : BookType.Config β} (hcfg : QuantityBook.ValidConfig cfg) :
    (make cfg).Sound := by
  intro s
  cases s with
  | buy => exact QuantityBook.make_sound .buy hcfg
  | sell => exact QuantityBook.make_sound .sell hcfg

theorem Sound.setSide (h : b.Sound) {c : β s} (hc : QuantityBook.Sound c) :
    (b.setSide s c).Sound := by
  intro t
  rcases eq_or_ne t s with rfl | hts
  · rwa [side_setSide_self]
  · rw [side_setSide_of_ne b hts]
    exact h t

theorem Sound.handleAddOrder (h : b.Sound) (s : Side) (px : Nat) (qty : Int)
    (hfault : ∀ e c, (OrderBook.handleAddOrder s px qty).run b = .error e c → e.isFault = false) :
    (Machine.finalState ((OrderBook.handleAddOrder s px qty).run b)).Sound := by
  have hside := QuantityBook.add_sound px qty (h s)
  rw [handleAddOrder_run] at hfault ⊢
  cases hrun : (BookType.addOrder px qty).run (b.side s) with
  | ok r c =>
      rw [hrun] at hside
      exact h.setSide (hside fun e d he => nomatch he)
  | error e c =>
      rw [hrun] at hside hfault
      refine h.setSide (hside fun e' d he => ?_)
      cases he
      exact hfault e _ rfl

theorem Sound.handleOrderReduced (h : b.Sound) (s : Side) (px : Nat) (qty : Int) :
    (Machine.finalState ((OrderBook.handleOrderReduced s px qty).run b)).Sound := by
  have hside := QuantityBook.reduce_sound px qty (h s)
  rw [handleOrderReduced_run]
  cases hrun : (BookType.reduceOrder px qty).run (b.side s) with
  | ok r c =>
      rw [hrun] at hside
      exact h.setSide hside
  | error e c =>
      rw [hrun] at hside
      exact h.setSide hside

end OrderBook

/-! ## Reached states -/

namespace Message

variable {κ : Type}

/-- The shares of an order in a message are an `int`. -/
def IntShares : Message κ → Prop
  | addOrder msg => FitsInt msg.shares
  | addOrderMpid msg => FitsInt msg.shares
  | orderReplace msg => FitsInt msg.shares
  | _ => True

/-- The order and the share count of an execution or of a cancel. -/
def partialReduction? : Message κ → Option (UInt64 × UInt32)
  | orderExecuted msg => some (msg.orderReferenceNumber, msg.executedShares)
  | orderExecutedPrice msg => some (msg.orderReferenceNumber, msg.executedShares)
  | orderCancel msg => some (msg.orderReferenceNumber, msg.canceledShares)
  | _ => none

end Message

namespace ComputeBook

/-- A positive count that is an `int` takes the shares of the message, or all of the order. -/
theorem reducedShares_eq_min {κ : Type} (data : OrderData κ) {k : UInt32} (hpos : 0 < k.toNat)
    (hlt : k.toNat < 2147483648) : reducedShares data k = min (k.toNat : Int) data.qty := by
  have hne : k ≠ 0 := by
    rintro rfl
    exact absurd hpos (by decide)
  have hint : int32 k.toNat = k.toNat := by
    apply int32_of_fits
    unfold FitsInt
    omega
  simp only [reducedShares, if_neg hne, hint]
  split_ifs with hless
  · exact (min_eq_right (Int.le_of_lt hless)).symm
  · exact (min_eq_left (Int.not_lt.1 hless)).symm

variable {κ : Type} [DecidableEq κ] {β : Side → Type} [BookType β]

/-- The states that messages lead to from the constructor, none of which led to a fault. -/
inductive Reachable (hashValue : κ → UInt64) (cfg : BookType.Config β) : ComputeBook κ β → Prop
  | make : Reachable hashValue cfg (make hashValue cfg)
  | step {cb : ComputeBook κ β} (h : Reachable hashValue cfg cb) (recvts : Int) (msg : Message κ)
      (hmsg : msg.IntShares)
      (hfault : ∀ e cb', (handleMessage recvts msg).run cb = .error e cb' → e.isFault = false) :
      Reachable hashValue cfg (Machine.finalState ((handleMessage recvts msg).run cb))

/-- An execution or a cancel is a reduction. -/
theorem handleMessage_partialReduction {msg : Message κ} {id : UInt64} {k : UInt32}
    (hmsg : msg.partialReduction? = some (id, k)) (recvts : Int) :
    ∃ header, (handleMessage recvts msg : EStateM Failure (ComputeBook κ β) _) =
      handleOrderReduction recvts header id k := by
  cases msg with
  | orderExecuted m =>
      cases hmsg
      exact ⟨m.header, rfl⟩
  | orderExecutedPrice m =>
      cases hmsg
      exact ⟨m.header, rfl⟩
  | orderCancel m =>
      cases hmsg
      exact ⟨m.header, rfl⟩
  | addOrder m => cases hmsg
  | addOrderMpid m => cases hmsg
  | orderDelete m => cases hmsg
  | orderReplace m => cases hmsg
  | stockDirectory m => cases hmsg
  | other header => cases hmsg

variable [QuantityBook β]

/-- The books are sound, and each live order has a quantity that is an `int` and a book to be in. -/
structure SoundBooks (cb : ComputeBook κ β) : Prop where
  config : QuantityBook.ValidConfig cb.cfg
  books : ∀ stock book, cb.books.find? stock = some book → book.Sound
  live : ∀ id data, cb.orders.find? id = some data →
    FitsInt data.qty ∧ cb.books.find? data.stock ≠ none

section Sound

variable {cb : ComputeBook κ β} {recvts : Int} {id : UInt64} {data : OrderData κ} {c : OrderBook β}

theorem SoundBooks.bookOf (h : cb.SoundBooks) (stock : κ) : (cb.bookOf stock).Sound :=
  AllBooks.bookOf h.books (OrderBook.sound_make h.config) stock

theorem SoundBooks.addTo (h : cb.SoundBooks) (id : UInt64) (hq : FitsInt data.qty) (hc : c.Sound) :
    (cb.addTo id data c).SoundBooks := by
  refine ⟨h.config, AllBooks.addTo h.books hc, fun j other hj => ?_⟩
  have hfind : (cb.addTo id data c).orders.find? j = _ :=
    UnorderedMap.find?_emplace cb.orders id j data
  rw [hfind] at hj
  split_ifs at hj with hid
  · cases hold : cb.orders.find? id with
    | none =>
        rw [hold, Option.getD_none, Option.some.injEq] at hj
        subst hj
        exact ⟨hq, hasBook_addTo_self⟩
    | some old =>
        rw [hold, Option.getD_some, Option.some.injEq] at hj
        subst hj
        obtain ⟨hfit, hbook⟩ := h.live id old hold
        exact ⟨hfit, hasBook_addTo hbook⟩
  · obtain ⟨hfit, hbook⟩ := h.live j other hj
    exact ⟨hfit, hasBook_addTo hbook⟩

theorem SoundBooks.takeFrom (h : cb.SoundBooks) (hfind : cb.orders.find? id = some data)
    (qty : Int) (hc : c.Sound) : (cb.takeFrom id data qty c).SoundBooks := by
  have hhas := (h.live id data hfind).2
  refine ⟨h.config, AllBooks.takeFrom h.books hhas hc, fun j other hj => ?_⟩
  rw [find?_orders_takeFrom hfind] at hj
  split_ifs at hj
  · cases hj
    exact ⟨fitsInt_int32 _, hasBook_takeFrom hhas hhas⟩
  · obtain ⟨hfit, hbook⟩ := h.live j other hj
    exact ⟨hfit, hasBook_takeFrom hhas hbook⟩

theorem soundBooks_make (hashValue : κ → UInt64) {cfg : BookType.Config β}
    (hcfg : QuantityBook.ValidConfig cfg) : SoundBooks (make hashValue cfg) where
  config := hcfg
  books stock book hbook := by simp [make] at hbook
  live id data hfind := by simp [make] at hfind

/-! ### Handlers -/

theorem handleAddOrder_sound (h : cb.SoundBooks) {msg : AddOrderMessage κ}
    (hq : FitsInt msg.shares)
    (hfault : ∀ e cb', (handleAddOrder recvts msg).run cb = .error e cb' → e.isFault = false) :
    (Machine.finalState ((handleAddOrder recvts msg).run cb)).SoundBooks := by
  cases hid : cb.orders.find? msg.orderReferenceNumber with
  | some data =>
      rw [handleAddOrder_duplicate (by simp [hid])]
      exact h
  | none =>
      have hbook := (h.bookOf msg.stock).handleAddOrder msg.buySellIndicator msg.price msg.shares
      rw [handleAddOrder_run hid] at hfault ⊢
      cases hrun : (OrderBook.handleAddOrder msg.buySellIndicator msg.price msg.shares).run
          (cb.bookOf msg.stock) with
      | ok r c =>
          rw [hrun] at hbook
          exact h.addTo _ hq (hbook fun e d he => nomatch he)
      | error e c =>
          rw [hrun] at hbook hfault
          refine h.addTo _ hq (hbook fun e' d he => ?_)
          cases he
          exact hfault e _ rfl

theorem handleOrderReduction_sound (h : cb.SoundBooks) (header : MessageHeader) (id : UInt64)
    (shares : UInt32) :
    (Machine.finalState ((handleOrderReduction recvts header id shares).run cb)).SoundBooks := by
  cases hfind : cb.orders.find? id with
  | none =>
      rw [handleOrderReduction_unknown hfind]
      exact h
  | some data =>
      obtain ⟨book, hbook⟩ := Option.ne_none_iff_exists'.1 (h.live id data hfind).2
      have hred := (h.books _ _ hbook).handleOrderReduced data.buySellIndicator data.px
        (reducedShares data shares)
      rw [handleOrderReduction_run hfind hbook]
      cases hrun : (OrderBook.handleOrderReduced data.buySellIndicator data.px
          (reducedShares data shares)).run book with
      | ok r c =>
          rw [hrun] at hred
          exact h.takeFrom hfind _ hred
      | error e c =>
          rw [hrun] at hred
          exact h.takeFrom hfind _ hred

theorem handleOrderReplace_sound (h : cb.SoundBooks) {msg : OrderReplaceMessage}
    (hq : FitsInt msg.shares)
    (hfault : ∀ e cb', (handleOrderReplace recvts msg).run cb = .error e cb' →
      e.isFault = false) :
    (Machine.finalState ((handleOrderReplace recvts msg).run cb)).SoundBooks := by
  cases hfind : cb.orders.find? msg.originalOrderReferenceNumber with
  | none =>
      rw [handleOrderReplace_ignored (.inl hfind)]
      exact h
  | some data =>
      cases hnew : cb.orders.find? msg.newOrderReferenceNumber with
      | some other =>
          rw [handleOrderReplace_ignored (.inr (by simp [hnew]))]
          exact h
      | none =>
          obtain ⟨book, hbook⟩ := Option.ne_none_iff_exists'.1 (h.live _ data hfind).2
          have hred := (h.books _ _ hbook).handleOrderReduced data.buySellIndicator data.px
            data.qty
          rw [handleOrderReplace_run hfind hnew hbook] at hfault ⊢
          cases hrun : (OrderBook.handleOrderReduced data.buySellIndicator data.px
              data.qty).run book with
          | error e b =>
              rw [hrun] at hred
              exact h.takeFrom hfind _ hred
          | ok r b =>
              rw [hrun] at hred hfault
              have htake := h.takeFrom hfind data.qty hred
              have hadd := OrderBook.Sound.handleAddOrder hred data.buySellIndicator msg.price
                msg.shares
              simp only [Machine.finalState] at hadd
              simp only [] at hfault ⊢
              cases hrun' : (OrderBook.handleAddOrder data.buySellIndicator msg.price
                  msg.shares).run b with
              | ok r' c =>
                  rw [hrun'] at hadd
                  exact htake.addTo _ hq (hadd fun e d he => nomatch he)
              | error e c =>
                  rw [hrun'] at hadd hfault
                  refine htake.addTo _ hq (hadd fun e' d he => ?_)
                  cases he
                  exact hfault e _ rfl

theorem SoundBooks.listed (h : cb.SoundBooks) (stock : κ) :
    SoundBooks { cb with books := cb.books.emplace stock (OrderBook.make cb.cfg) } := by
  refine ⟨h.config, AllBooks.listed h.books (OrderBook.sound_make h.config) stock, fun j data hj => ?_⟩
  obtain ⟨hfit, hbook⟩ := h.live j data hj
  exact ⟨hfit, hasBook_emplace stock hbook⟩

theorem handleMessage_sound (h : cb.SoundBooks) {msg : Message κ} (hmsg : msg.IntShares)
    (hfault : ∀ e cb', (handleMessage recvts msg).run cb = .error e cb' → e.isFault = false) :
    (Machine.finalState ((handleMessage recvts msg).run cb)).SoundBooks := by
  cases msg with
  | addOrder m => exact handleAddOrder_sound h hmsg hfault
  | addOrderMpid m => exact handleAddOrder_sound h hmsg hfault
  | orderExecuted m => exact handleOrderReduction_sound h _ _ _
  | orderExecutedPrice m => exact handleOrderReduction_sound h _ _ _
  | orderCancel m => exact handleOrderReduction_sound h _ _ _
  | orderDelete m => exact handleOrderReduction_sound h _ _ _
  | orderReplace m => exact handleOrderReplace_sound h hmsg hfault
  | stockDirectory m => exact h.listed m.stock
  | other header => exact h

theorem Reachable.soundBooks {hashValue : κ → UInt64} {cfg : BookType.Config β}
    (hcfg : QuantityBook.ValidConfig cfg) (h : Reachable hashValue cfg cb) : cb.SoundBooks := by
  induction h with
  | make => exact soundBooks_make hashValue hcfg
  | step _ recvts msg hmsg hfault ih => exact handleMessage_sound ih hmsg hfault

end Sound

/-! ## Reductions -/

/-- The quantity of a book at a price. -/
def bookQty (cb : ComputeBook κ β) (stock : κ) (s : Side) (px : Nat) : Int :=
  QuantityBook.qtyAt ((cb.bookOf stock).side s) px

/-- A message for `k` shares of an order takes `min(k, r)` of the `r` shares that remain from the
order and from its level, and says so to the callback. The order is removed when `k` is all of it,
a message for no shares changes nothing, and no quantity ever grows. -/
def ReducesByShares (cb : ComputeBook κ β) (recvts : Int) (msg : Message κ) (id : UInt64)
    (data : OrderData κ) (k : UInt32) : Prop :=
  ∃ call cb', (handleMessage recvts msg).run cb = .ok (some call) cb' ∧
    call.update.qty = -min (k.toNat : Int) data.qty ∧
    cb'.orders.find? id = (if data.qty ≤ k.toNat then none
      else some { data with qty := data.qty - min (k.toNat : Int) data.qty }) ∧
    cb'.bookQty data.stock data.buySellIndicator data.px =
      cb.bookQty data.stock data.buySellIndicator data.px - min (k.toNat : Int) data.qty ∧
    (k = 0 → cb' = cb) ∧
    (∀ j d', cb'.orders.find? j = some d' → ∃ d, cb.orders.find? j = some d ∧ d'.qty ≤ d.qty) ∧
    ∀ stock s px, cb'.bookQty stock s px ≤ cb.bookQty stock s px

section Reductions

variable {cb : ComputeBook κ β} {recvts : Int} {id : UInt64} {data : OrderData κ} {k : UInt32}
  {c : OrderBook β}

/-- What a reduction does when the message says so much. -/
theorem reducesByShares_of_run {msg : Message κ} {book : OrderBook β}
    (hmsg : msg.partialReduction? = some (id, k)) (hfind : cb.orders.find? id = some data)
    (hbook : cb.books.find? data.stock = some book) (h : cb.ReducesByShares recvts msg id data k) :
    ∃ c, (∃ r, (OrderBook.handleOrderReduced data.buySellIndicator data.px
        (reducedShares data k)).run book = .ok r c) ∧
      (cb.takeFrom id data (reducedShares data k) c).orders.find? id =
        (if data.qty ≤ k.toNat then none
          else some { data with qty := data.qty - min (k.toNat : Int) data.qty }) ∧
      (cb.takeFrom id data (reducedShares data k) c).bookQty data.stock data.buySellIndicator
          data.px =
        cb.bookQty data.stock data.buySellIndicator data.px - min (k.toNat : Int) data.qty ∧
      ∀ stock s px, (cb.takeFrom id data (reducedShares data k) c).bookQty stock s px ≤
        cb.bookQty stock s px := by
  obtain ⟨header, hheader⟩ := handleMessage_partialReduction (β := β) hmsg recvts
  obtain ⟨call, cb', hrun, -, horder, hlevel, -, -, hle⟩ := h
  rw [hheader, handleOrderReduction_run hfind hbook] at hrun
  cases hbrun : (OrderBook.handleOrderReduced data.buySellIndicator data.px
      (reducedShares data k)).run book with
  | ok r c =>
      rw [hbrun] at hrun
      cases hrun
      exact ⟨c, ⟨r, rfl⟩, horder, hlevel, hle⟩
  | error e c =>
      rw [hbrun] at hrun
      cases hrun

/-- A message for no shares removes the order. -/
theorem pos_of_reducesByShares {msg : Message κ} {book : OrderBook β}
    (hmsg : msg.partialReduction? = some (id, k)) (hfind : cb.orders.find? id = some data)
    (hbook : cb.books.find? data.stock = some book) (hlive : 0 < data.qty)
    (h : cb.ReducesByShares recvts msg id data k) : 0 < k.toNat := by
  by_contra hzero
  have hk : k = 0 := UInt32.toNat_inj.1 (Nat.eq_zero_of_not_pos hzero)
  subst hk
  obtain ⟨c, -, horder, -⟩ := reducesByShares_of_run hmsg hfind hbook h
  have hrest : int32 (data.qty - reducedShares data 0) = 0 := by
    rw [reducedShares_zero, Int.sub_self]
    rfl
  rw [find?_orders_takeFrom hfind, if_pos rfl, if_pos hrest, if_neg] at horder
  · cases horder
  · exact not_le.2 hlive

/-- A message for more shares than fit in an `int` leaves the order alive. -/
theorem lt_of_reducesByShares {msg : Message κ} {book : OrderBook β}
    (hmsg : msg.partialReduction? = some (id, k)) (hfind : cb.orders.find? id = some data)
    (hbook : cb.books.find? data.stock = some book) (hlive : 0 < data.qty) (hfit : FitsInt data.qty)
    (h : cb.ReducesByShares recvts msg id data k) : k.toNat < 2147483648 := by
  by_contra hbig
  have hk := k.toNat_lt
  obtain ⟨c, -, horder, -⟩ := reducesByShares_of_run hmsg hfind hbook h
  have hle : data.qty ≤ k.toNat := by
    unfold FitsInt at hfit
    omega
  have hne : k ≠ 0 := by
    rintro rfl
    exact hbig (by decide)
  -- the count is negative as an `int`
  have hshares : reducedShares data k = k.toNat - 4294967296 := by
    have hint : int32 k.toNat = k.toNat - 4294967296 := by
      unfold int32
      omega
    simp only [reducedShares, if_neg hne, hint]
    rw [if_neg]
    omega
  have hrest : int32 (data.qty - reducedShares data k) ≠ 0 := by
    rw [hshares]
    unfold FitsInt at hfit
    unfold int32
    omega
  rw [find?_orders_takeFrom hfind, if_pos rfl, if_neg hrest, if_pos hle] at horder
  cases horder

/-- The quantities after a change of one side of a book. -/
theorem bookQty_takeFrom {book : OrderBook β} (hbook : cb.books.find? data.stock = some book)
    (qty : Int) (b : β data.buySellIndicator) (stock : κ) (s : Side) (px : Nat) :
    (cb.takeFrom id data qty (book.setSide data.buySellIndicator b)).bookQty stock s px =
      if stock = data.stock ∧ s = data.buySellIndicator then QuantityBook.qtyAt b px
      else cb.bookQty stock s px := by
  have hhas : cb.books.find? data.stock ≠ none := by simp [hbook]
  rw [bookQty, bookOf_takeFrom hhas]
  by_cases hstock : stock = data.stock
  · have hof : cb.bookOf stock = book := by
      rw [bookOf, hstock, hbook, Option.getD_some]
    rw [if_pos hstock]
    by_cases hs : s = data.buySellIndicator
    · subst hs
      rw [if_pos ⟨hstock, rfl⟩, OrderBook.side_setSide_self]
    · rw [if_neg fun hboth => hs hboth.2, OrderBook.side_setSide_of_ne _ hs, bookQty, hof]
  · rw [if_neg hstock, if_neg fun hboth => hstock hboth.1, bookQty]

/-- The quantities of the side before the message. -/
theorem bookQty_of_find? {book : OrderBook β} (hbook : cb.books.find? data.stock = some book)
    (s : Side) (px : Nat) :
    cb.bookQty data.stock s px = QuantityBook.qtyAt (book.side s) px := by
  rw [bookQty, bookOf, hbook, Option.getD_some]

/-- A message does what it says when its shares can be taken from the side. -/
theorem reducesByShares_of_side {msg : Message κ} {book : OrderBook β}
    (hmsg : msg.partialReduction? = some (id, k)) (hfind : cb.orders.find? id = some data)
    (hbook : cb.books.find? data.stock = some book) (hlive : 0 < data.qty)
    (hfit : FitsInt data.qty) (hpos : 0 < k.toNat) (hlt : k.toNat < 2147483648) {r : Bool}
    {b : β data.buySellIndicator}
    (hside : (BookType.reduceOrder data.px (min (k.toNat : Int) data.qty)).run
      (book.side data.buySellIndicator) = .ok r b)
    (hlevel : QuantityBook.qtyAt b data.px =
      QuantityBook.qtyAt (book.side data.buySellIndicator) data.px - min (k.toNat : Int) data.qty)
    (hle : ∀ p, QuantityBook.qtyAt b p ≤
      QuantityBook.qtyAt (book.side data.buySellIndicator) p) :
    cb.ReducesByShares recvts msg id data k := by
  obtain ⟨header, hheader⟩ := handleMessage_partialReduction (β := β) hmsg recvts
  have hmin := reducedShares_eq_min data hpos hlt
  have hrun : (OrderBook.handleOrderReduced data.buySellIndicator data.px
      (min (k.toNat : Int) data.qty)).run book = .ok r (book.setSide data.buySellIndicator b) := by
    rw [OrderBook.handleOrderReduced_run, hside]
  have hrest : int32 (data.qty - min (k.toNat : Int) data.qty) =
      data.qty - min (k.toNat : Int) data.qty := by
    apply int32_of_fits
    unfold FitsInt at *
    omega
  have hneg : int32 (-min (k.toNat : Int) data.qty) = -min (k.toNat : Int) data.qty := by
    apply int32_of_fits
    unfold FitsInt at *
    omega
  have horder := find?_orders_takeFrom hfind (min (k.toNat : Int) data.qty)
    (book.setSide data.buySellIndicator b)
  rw [hrest] at horder
  refine ⟨⟨header, book.setSide data.buySellIndicator b, BookUpdate.ofLevel recvts data.stock
      data.buySellIndicator data.px (int32 (-min (k.toNat : Int) data.qty))⟩,
    cb.takeFrom id data (min (k.toNat : Int) data.qty) (book.setSide data.buySellIndicator b),
    ?_, hneg, ?_, ?_, ?_, ?_, ?_⟩
  · rw [hheader, handleOrderReduction_run hfind hbook, hmin, hrun]
  · rw [horder, if_pos rfl]
    -- nothing is left exactly when the message is for all of it
    refine if_congr ?_ rfl rfl
    omega
  · rw [bookQty_takeFrom hbook, if_pos ⟨rfl, rfl⟩, bookQty_of_find? hbook, hlevel]
  · rintro rfl
    exact absurd hpos (by decide)
  · intro j d' hj
    rw [horder] at hj
    split_ifs at hj with hid
    · cases hj
      subst hid
      refine ⟨data, hfind, ?_⟩
      simp only []
      omega
    · exact ⟨d', hj, le_rfl⟩
  · intro stock s px
    rw [bookQty_takeFrom hbook]
    split_ifs with hboth
    · obtain ⟨rfl, rfl⟩ := hboth
      rw [bookQty_of_find? hbook]
      exact hle px
    · exact le_rfl

/-- A message takes its shares exactly when their count is positive and an `int`, and the level of the
order has them. -/
theorem SoundBooks.reduces_iff (h : cb.SoundBooks) {msg : Message κ}
    (hmsg : msg.partialReduction? = some (id, k)) (hfind : cb.orders.find? id = some data)
    (hlive : 0 < data.qty) :
    cb.ReducesByShares recvts msg id data k ↔
      0 < k.toNat ∧ k.toNat < 2147483648 ∧
        min (k.toNat : Int) data.qty ≤
          cb.bookQty data.stock data.buySellIndicator data.px := by
  obtain ⟨hfit, hhas⟩ := h.live id data hfind
  obtain ⟨book, hbook⟩ := Option.ne_none_iff_exists'.1 hhas
  have hsound := h.books _ _ hbook data.buySellIndicator
  have hqfit : FitsInt (min (k.toNat : Int) data.qty) := by
    unfold FitsInt at *
    omega
  rw [bookQty_of_find? hbook]
  constructor
  · intro hred
    have hpos := pos_of_reducesByShares hmsg hfind hbook hlive hred
    have hlt := lt_of_reducesByShares hmsg hfind hbook hlive hfit hred
    obtain ⟨c, ⟨r, hrun⟩, -, hlevel, hle⟩ := reducesByShares_of_run hmsg hfind hbook hred
    rw [reducedShares_eq_min data hpos hlt] at hrun hlevel hle
    rw [OrderBook.handleOrderReduced_run] at hrun
    refine ⟨hpos, hlt, (QuantityBook.reduce_iff hsound (by omega) hqfit).1 ?_⟩
    cases hside : (BookType.reduceOrder data.px (min (k.toNat : Int) data.qty)).run
        (book.side data.buySellIndicator) with
    | error e b =>
        rw [hside] at hrun
        cases hrun
    | ok r' b =>
        rw [hside] at hrun
        cases hrun
        rw [bookQty_takeFrom hbook, if_pos ⟨rfl, rfl⟩, bookQty_of_find? hbook] at hlevel
        refine ⟨r, b, rfl, hlevel, fun p => ?_⟩
        have hp := hle data.stock data.buySellIndicator p
        rwa [bookQty_takeFrom hbook, if_pos ⟨rfl, rfl⟩, bookQty_of_find? hbook] at hp
  · rintro ⟨hpos, hlt, henough⟩
    obtain ⟨r, b, hside, hlevel, hle⟩ :=
      (QuantityBook.reduce_iff hsound (by omega) hqfit).2 henough
    exact reducesByShares_of_side hmsg hfind hbook hlive hfit hpos hlt hside hlevel hle

end Reductions

/-- In every state reached, an execution or a cancel of a live order takes its shares from the order
and from its level exactly when their count is positive and an `int`, and the level has them. -/
theorem reducesByShares_iff (hashValue : κ → UInt64) (cfg : BookType.Config β)
    (hcfg : QuantityBook.ValidConfig cfg) (cb : ComputeBook κ β)
    (hcb : Reachable hashValue cfg cb) (recvts : Int) (msg : Message κ) (id : UInt64) (k : UInt32)
    (hmsg : msg.partialReduction? = some (id, k)) (data : OrderData κ)
    (hfind : cb.orders.find? id = some data) (hlive : 0 < data.qty) :
    cb.ReducesByShares recvts msg id data k ↔
      0 < k.toNat ∧ k.toNat < 2147483648 ∧
        min (k.toNat : Int) data.qty ≤
          cb.bookQty data.stock data.buySellIndicator data.px :=
  (hcb.soundBooks hcfg).reduces_iff hmsg hfind hlive

/-- The state with one buy of a hundred shares at ten dollars. -/
def withOneBuy : ComputeBook Nat MapBasedBookSide :=
  Machine.finalState ((handleMessage 0 (.addOrder ⟨⟨65, 7, 0, 1⟩, 1, .buy, 100, 7, 100000⟩)).run
    (make UInt64.ofNat ()))

theorem reachable_withOneBuy : Reachable UInt64.ofNat () withOneBuy := by
  apply Reachable.step .make
  · show FitsInt 100
    decide
  · intro e cb' hrun
    cases hrun

theorem reducesByShares_forty :
    withOneBuy.ReducesByShares 1 (.orderExecuted ⟨⟨69, 7, 0, 2⟩, 1, 40⟩) 1
      ⟨7, .buy, 100000, 100⟩ 40 := by
  refine (reducesByShares_iff UInt64.ofNat () trivial withOneBuy reachable_withOneBuy 1
    (.orderExecuted ⟨⟨69, 7, 0, 2⟩, 1, 40⟩) 1 40 rfl ⟨7, .buy, 100000, 100⟩ rfl
    (by decide)).2 ⟨by decide, by decide, ?_⟩
  show (40 : Int) ≤ 100
  decide

/-- An execution of no shares removes the order and a cancel of 2^32 - 1 shares adds one to it. -/
theorem reduction_edges :
    Reachable UInt64.ofNat () withOneBuy ∧
      withOneBuy.orders.find? 1 = some ⟨7, .buy, 100000, 100⟩ ∧
      (∃ call cb', (handleMessage 1 (.orderExecuted ⟨⟨69, 7, 0, 2⟩, 1, 0⟩)).run withOneBuy =
          .ok (some call) cb' ∧ call.update.qty = -100 ∧ cb'.orders.find? 1 = none ∧
        cb'.bookQty 7 .buy 100000 = 0) ∧
      (∃ call cb', (handleMessage 1 (.orderCancel ⟨⟨88, 7, 0, 2⟩, 1, 4294967295⟩)).run withOneBuy =
          .ok (some call) cb' ∧ call.update.qty = 1 ∧
        cb'.orders.find? 1 = some ⟨7, .buy, 100000, 101⟩ ∧ cb'.bookQty 7 .buy 100000 = 101) ∧
      ¬ withOneBuy.ReducesByShares 1 (.orderExecuted ⟨⟨69, 7, 0, 2⟩, 1, 0⟩) 1
        ⟨7, .buy, 100000, 100⟩ 0 ∧
      ¬ withOneBuy.ReducesByShares 1 (.orderCancel ⟨⟨88, 7, 0, 2⟩, 1, 4294967295⟩) 1
        ⟨7, .buy, 100000, 100⟩ 4294967295 := by
  refine ⟨reachable_withOneBuy, rfl, ⟨_, _, rfl, by decide, rfl, rfl⟩,
    ⟨_, _, rfl, by decide, by decide, by decide⟩, ?_, ?_⟩
  · intro h
    obtain ⟨call, cb', hrun, hqty, -⟩ := h
    cases hrun
    exact absurd hqty (by decide)
  · intro h
    obtain ⟨call, cb', hrun, hqty, -⟩ := h
    cases hrun
    exact absurd hqty (by decide)

end ComputeBook

end JayBeams.Itch5
