import JayBeams.Itch5.BookSide

/-!
# The array-based book side

`array_based_book_side` keeps the levels near the inside in a vector, indexed by their distance to
the worst level of a window, and every worse level in an ordered map. The window is moved when an
order improves the inside past its end, and redefined around the next inside when it runs empty.

Every operation checks its index into the vector: past the end the model stops with
`Failure.outOfRange`, where the source has undefined behavior (or raises, when it uses `at`). A
level computed by `relative_to_level` outside the range of levels stops it with
`Failure.invalidLevel`. Quantities are `int`, with the wrap of `int32`.
-/

set_option autoImplicit false

namespace JayBeams.Itch5

open Containers

/-- `array_based_order_book::config` -/
structure ArrayBasedConfig where
  maxSize : Int
  deriving DecidableEq, Repr

/-- The default of `max-size`. -/
def ArrayBasedConfig.default : ArrayBasedConfig := ⟨8192⟩

/-- `array_based_order_book::config::validate` accepts the configuration. -/
def ArrayBasedConfig.validate (cfg : ArrayBasedConfig) : Bool := !(cfg.maxSize ≤ 0)

/-- `array_based_book_side` -/
structure ArrayBasedBookSide (s : Side) where
  maxSize : Nat
  topLevels : List Int
  bottomLevels : Depth s
  tkInside : Nat
  tkBeginTop : Nat
  tkEndTop : Nat

/-! ## The differences between the sides -/

namespace Side

/-- `tk_empty_quote`: the level of the empty quote price (`priceLevels_emptyQuotePrice`). -/
def tkEmptyQuote : Side → Nat
  | buy => 0
  | sell => levelMax

/-- `get_limits`: the levels `rel` worse and `rel` better, limited to valid levels. -/
def getLimits (s : Side) (tkPx rel : Nat) : Nat × Nat :=
  if tkPx = s.tkEmptyQuote then (s.tkEmptyQuote, s.tkEmptyQuote)
  else
    let tkLow := if tkPx ≤ rel then 0 else tkPx - rel
    let tkLowBase := if tkLow + rel ≥ levelMax then levelMax else tkLow + rel
    let tkHigh := if tkLowBase + rel ≥ levelMax then levelMax else tkLowBase + rel
    let tkHighBase := if tkHigh ≤ rel then 0 else tkHigh - rel
    if tkLowBase ≠ tkHighBase then (if tkHighBase ≤ rel then 0 else tkHighBase - rel, tkHigh)
    else (tkLow, tkHigh)

/-- `limit_top_prices`: the worst level of the new window, and one past its best level. -/
def limitTopPrices (s : Side) (tkPx rel : Nat) : Nat × Nat :=
  match s with
  | buy => s.getLimits tkPx rel
  | sell => ((s.getLimits tkPx rel).2, (s.getLimits tkPx rel).1)

/-- `relative_to_level` -/
def relativeToLevel (s : Side) (tkIni rel : Nat) : Except Failure Nat :=
  let tk : Int := match s with
    | buy => tkIni + rel
    | sell => tkIni - rel
  if 0 ≤ tk ∧ tk ≤ levelMax then .ok tk.toNat else .error (.invalidLevel tk)

/-- `level_to_relative` -/
def levelToRelative (s : Side) (tkIni tkPx : Nat) : Except Failure Nat :=
  match s with
  | buy => if tkPx ≥ tkIni then .ok (tkPx - tkIni) else .error (.assertion "tk_px >= tk_ini")
  | sell => if tkPx ≤ tkIni then .ok (tkIni - tkPx) else .error (.assertion "tk_px <= tk_ini")

end Side

/-- `validate_operation_params` -/
def validateOperationParams {σ : Type} (operation : String) (qty : Int) (px : Nat) :
    EStateM Failure σ Unit :=
  if qty > 0 ∧ px ≥ 0 ∧ px < maxPriceFieldValue price4 then pure ()
  else throw (.feedError (.invalidOperationParameters operation qty px))

namespace ArrayBasedBookSide

variable {s : Side}

/-- The constructor. -/
def make (cfg : ArrayBasedConfig) (s : Side) : ArrayBasedBookSide s where
  maxSize := cfg.maxSize.toNat
  topLevels := List.replicate cfg.maxSize.toNat 0
  bottomLevels := OrderedMap.empty
  tkInside := s.tkEmptyQuote
  tkBeginTop := s.tkEmptyQuote
  tkEndTop := s.tkEmptyQuote

/-- `top_levels_[i]` -/
def top (b : ArrayBasedBookSide s) (i : Nat) : Except Failure Int :=
  match b.topLevels[i]? with
  | some qty => .ok qty
  | none => .error (.outOfRange i b.topLevels.length)

/-- Read `top_levels_[i]`. -/
def readTop (i : Nat) : EStateM Failure (ArrayBasedBookSide s) Int := do
  let b ← get
  liftExcept (b.top i)

/-- Assign to `top_levels_[i]`. -/
def writeTop (i : Nat) (qty : Int) : EStateM Failure (ArrayBasedBookSide s) Unit := do
  let b ← get
  if i < b.topLevels.length then set { b with topLevels := b.topLevels.set i qty }
  else throw (.outOfRange i b.topLevels.length)

/-- `std::fill` of the first `n` elements of `top_levels_` with zeroes. -/
def fillTop (n : Nat) : EStateM Failure (ArrayBasedBookSide s) Unit := do
  let b ← get
  if n ≤ b.topLevels.length then
    set { b with topLevels := List.replicate n 0 ++ b.topLevels.drop n }
  else throw (.outOfRange (n - 1) b.topLevels.length)

/-! ## Observers -/

/-- `best_quote` -/
def bestQuote (b : ArrayBasedBookSide s) : Except Failure HalfQuote :=
  if b.tkInside = s.tkEmptyQuote then .ok s.emptyQuote
  else do
    let relPx ← s.levelToRelative b.tkBeginTop b.tkInside
    let pxInside ← levelToPrice price4 b.tkInside
    let qty ← b.top relPx
    return ⟨pxInside, qty⟩

/-- `relative_worst_top_level` -/
def relativeWorstTopLevel (b : ArrayBasedBookSide s) : Nat :=
  b.topLevels.findIdx fun x => x ≠ 0

/-- `worst_quote` -/
def worstQuote (b : ArrayBasedBookSide s) : Except Failure HalfQuote :=
  if b.tkInside = s.tkEmptyQuote then .ok s.emptyQuote
  else
    match b.bottomLevels.last? with
    | some e => do
        let pxWorst ← levelToPrice price4 e.1
        return ⟨pxWorst, e.2⟩
    | none => do
        let relWorst := b.relativeWorstTopLevel
        let tkWorst ← s.relativeToLevel b.tkBeginTop relWorst
        let pxWorst ← levelToPrice price4 tkWorst
        let qty ← b.top relWorst
        return ⟨pxWorst, qty⟩

/-- The loop of `top_levels_count` over the elements from `i` on. -/
def countLoop (b : ArrayBasedBookSide s) : Nat → Nat → Except Failure Nat
  | 0, _ => .ok 0
  | n + 1, i => do
      let qty ← b.top i
      let rest ← b.countLoop n (i + 1)
      return (if qty ≠ 0 then 1 else 0) + rest

/-- `top_levels_count` -/
def topLevelsCount (b : ArrayBasedBookSide s) : Except Failure Nat :=
  if b.tkInside = s.tkEmptyQuote then .ok 0
  else do
    let relPx ← s.levelToRelative b.tkBeginTop b.tkInside
    b.countLoop (relPx + 1) 0

/-- `count` -/
def count (b : ArrayBasedBookSide s) : Except Failure Nat := do
  let n ← b.topLevelsCount
  return b.bottomLevels.size + n

/-! ## Moving levels in and out of the window -/

/-- The first loop of `move_top_to_bottom_ranged`, over the elements from `i` on. -/
def moveRangedLoop : Nat → Nat → EStateM Failure (ArrayBasedBookSide s) Unit
  | 0, _ => pure ()
  | n + 1, i => do
      let qty ← readTop i
      if qty = 0 then moveRangedLoop n (i + 1)
      else
        let b ← get
        let tkI ← liftExcept (s.relativeToLevel b.tkBeginTop i)
        modify fun b => { b with bottomLevels := b.bottomLevels.emplace tkI qty }
        moveRangedLoop n (i + 1)

/-- `move_top_to_bottom_ranged` -/
def moveTopToBottomRanged (n : Nat) : EStateM Failure (ArrayBasedBookSide s) Unit := do
  moveRangedLoop n 0
  fillTop n

/-- The loop of `move_top_to_bottom` that shifts the levels of the vector from `i` to `j`. -/
def shiftLoop : Nat → Nat → Nat → EStateM Failure (ArrayBasedBookSide s) Unit
  | 0, _, _ => pure ()
  | n + 1, i, j => do
      let qty ← readTop i
      if qty ≠ 0 then
        writeTop j qty
        writeTop i 0
        shiftLoop n (i + 1) (j + 1)
      else shiftLoop n (i + 1) (j + 1)

/-- `move_top_to_bottom` -/
def moveTopToBottom (tkMax : Nat) : EStateM Failure (ArrayBasedBookSide s) Unit := do
  let b ← get
  assertThrow "not side<compare_t>::better_level(tk_begin_top_, tk_max)"
    (¬ s.Better b.tkBeginTop tkMax)
  if s.Better tkMax b.tkInside then
    let relInside ← liftExcept (s.levelToRelative b.tkBeginTop b.tkInside)
    moveTopToBottomRanged (relInside + 1)
  else
    let relTkMax ← liftExcept (s.levelToRelative b.tkBeginTop tkMax)
    moveTopToBottomRanged relTkMax
    let relTkInside ← liftExcept (s.levelToRelative b.tkBeginTop b.tkInside)
    shiftLoop (relTkInside + 1 - relTkMax) relTkMax 0

/-- The loop of `move_bottom_to_top`; it returns how many entries of the map were moved. -/
def moveBottomLoop : List (Nat × Int) → Nat → EStateM Failure (ArrayBasedBookSide s) Nat
  | [], n => pure n
  | le :: rest, n => do
      let b ← get
      if ¬ s.Better b.tkBeginTop le.1 then
        let relPx ← liftExcept (s.levelToRelative b.tkBeginTop le.1)
        writeTop relPx le.2
        moveBottomLoop rest (n + 1)
      else pure n

/-- `move_bottom_to_top` -/
def moveBottomToTop : EStateM Failure (ArrayBasedBookSide s) Unit := do
  let b ← get
  if b.bottomLevels.isEmpty then pure ()
  else
    let n ← moveBottomLoop b.bottomLevels.entries 0
    modify fun b => { b with bottomLevels := b.bottomLevels.dropFirst n }

/-- The loop of `next_best_price_level`, below the element `rel` of the vector. -/
def nextBestLoop (b : ArrayBasedBookSide s) : Nat → Except Failure Nat
  | 0 => .ok s.tkEmptyQuote
  | rel + 1 => do
      let qty ← b.top rel
      if qty ≠ 0 then s.relativeToLevel b.tkBeginTop rel else b.nextBestLoop rel

/-- `next_best_price_level` -/
def nextBestPriceLevel (b : ArrayBasedBookSide s) : Except Failure Nat := do
  let relInside ← s.levelToRelative b.tkBeginTop b.tkInside
  if relInside = 0 then return s.tkEmptyQuote else b.nextBestLoop relInside

/-! ## Operations -/

/-- `add_order`, for an order equal to or better than the inside. -/
def addInside (tkPx : Nat) (qty : Int) : EStateM Failure (ArrayBasedBookSide s) Bool := do
  let b ← get
  -- redefine the window when the new inside is past its end
  if ¬ s.Better b.tkEndTop tkPx then
    let limits := s.limitTopPrices tkPx (b.maxSize / 2)
    moveTopToBottom limits.1
    modify fun b => { b with tkBeginTop := limits.1, tkEndTop := limits.2 }
  modify fun b => { b with tkInside := tkPx }
  let b ← get
  let relPx ← liftExcept (s.levelToRelative b.tkBeginTop b.tkInside)
  let x ← readTop relPx
  writeTop relPx (int32 (x + qty))
  return true

/-- `add_order` -/
def addOrder (px : Nat) (qty : Int) : EStateM Failure (ArrayBasedBookSide s) Bool := do
  validateOperationParams "add_order" qty px
  let tkPx ← liftExcept (priceLevels price4 0 px)
  let b ← get
  if s.Better b.tkBeginTop tkPx then
    modify fun b => { b with bottomLevels := b.bottomLevels.addQty tkPx qty }
    return false
  else if ¬ s.Better b.tkInside tkPx then
    addInside tkPx qty
  else
    let relPx ← liftExcept (s.levelToRelative b.tkBeginTop tkPx)
    let x ← readTop relPx
    writeTop relPx (int32 (x + qty))
    return false

/-- `reduce_order`, for a price in the map. -/
def reduceBottom (px tkPx : Nat) (qty : Int) : EStateM Failure (ArrayBasedBookSide s) Bool := do
  let b ← get
  match b.bottomLevels.find? tkPx with
  | none =>
      throw (.feedError (.invalidReduce
        ("array_based_book_side::reduce_order." ++
          " Trying to reduce non-existing bottom_levels_price.")
        b.tkBeginTop b.tkInside px 0 qty))
  | some _ =>
      modify fun b => { b with bottomLevels := b.bottomLevels.reduceQty tkPx qty }
      return false

/-- The end of `reduce_order`, when the inside level was removed. -/
def nextInside : EStateM Failure (ArrayBasedBookSide s) Unit := do
  let b ← get
  let tkInside ← liftExcept b.nextBestPriceLevel
  modify fun b => { b with tkInside := tkInside }
  if tkInside = s.tkEmptyQuote then
    let b ← get
    -- the new inside comes from the map, if there is one
    let tkInside := match b.bottomLevels.first? with
      | some e => e.1
      | none => tkInside
    let limits := s.limitTopPrices tkInside (b.maxSize / 2)
    modify fun b =>
      { b with tkInside := tkInside, tkBeginTop := limits.1, tkEndTop := limits.2 }
    moveBottomToTop

/-- `reduce_order`, for a price in the window. -/
def reduceTop (px tkPx : Nat) (qty : Int) : EStateM Failure (ArrayBasedBookSide s) Bool := do
  let b ← get
  if s.Better tkPx b.tkInside then
    throw (.feedError (.invalidReduce
      ("array_based_book_side::reduce_order." ++
        " Trying to reduce a non-existing top_levels_ price" ++ " (better px_inside).")
      b.tkBeginTop b.tkInside px 0 qty))
  let relPx ← liftExcept (s.levelToRelative b.tkBeginTop tkPx)
  let x ← readTop relPx
  if x = 0 then
    throw (.feedError (.invalidReduce
      ("array_based_book_side::reduce_order." ++
        " Trying to reduce a non-existing top_levels_ price" ++ " (top_levels_[rel_px] == 0).")
      b.tkBeginTop b.tkInside px 0 qty))
  let rest := int32 (x - qty)
  -- the quantity cannot be negative
  let rest := if rest < 0 then 0 else rest
  writeTop relPx rest
  if tkPx ≠ b.tkInside then return false
  if rest = 0 then nextInside
  return true

/-- `reduce_order` -/
def reduceOrder (px : Nat) (qty : Int) : EStateM Failure (ArrayBasedBookSide s) Bool := do
  validateOperationParams "reduce_order" qty px
  let tkPx ← liftExcept (priceLevels price4 0 px)
  let b ← get
  if s.Better b.tkBeginTop tkPx then reduceBottom px tkPx qty else reduceTop px tkPx qty

instance : BookType ArrayBasedBookSide where
  Config := ArrayBasedConfig
  make := make
  addOrder := addOrder
  reduceOrder := reduceOrder
  bestQuote := bestQuote
  worstQuote := worstQuote
  count := count

end ArrayBasedBookSide

end JayBeams.Itch5
