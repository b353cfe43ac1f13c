import JayBeams.Itch5.BookSide

/-!
# The map-based book side

`map_based_book_side` keeps the quantity of each price in a `std::map` ordered by the comparator of
the side, so that the first entry is the inside and the last one the worst price.
-/

set_option autoImplicit false

namespace JayBeams.Itch5

open Containers

/-- `map_based_book_side` -/
structure MapBasedBookSide (s : Side) where
  levels : Depth s

namespace MapBasedBookSide

variable {s : Side}

/-- The constructor; the configuration has no members. -/
def make (_cfg : Unit) (s : Side) : MapBasedBookSide s := ⟨OrderedMap.empty⟩

/-- `best_quote` -/
def bestQuote (b : MapBasedBookSide s) : HalfQuote :=
  match b.levels.first? with
  | none => s.emptyQuote
  | some e => ⟨e.1, e.2⟩

/-- `worst_quote` -/
def worstQuote (b : MapBasedBookSide s) : HalfQuote :=
  match b.levels.last? with
  | none => s.emptyQuote
  | some e => ⟨e.1, e.2⟩

/-- `count` -/
def count (b : MapBasedBookSide s) : Nat := b.levels.size

/-- `add_order` -/
def addOrder (px : Nat) (qty : Int) : EStateM Failure (MapBasedBookSide s) Bool := do
  modify fun b => { b with levels := b.levels.emplace px 0 }
  modify fun b => { b with levels := b.levels.modify px fun x => int32 (x + qty) }
  let b ← get
  return b.levels.bestKey = some px

/-- `reduce_order` -/
def reduceOrder (px : Nat) (reducedQty : Int) : EStateM Failure (MapBasedBookSide s) Bool := do
  let b ← get
  match b.levels.find? px with
  | none => throw (.feedError .nonExistingPriceLevel)
  | some qty =>
      modify fun b => { b with levels := b.levels.modify px fun x => int32 (x - reducedQty) }
      let b ← get
      let insideChange : Bool := b.levels.bestKey = some px
      if int32 (qty - reducedQty) ≤ 0 then
        modify fun b => { b with levels := b.levels.erase px }
      return insideChange

instance : BookType MapBasedBookSide where
  Config := Unit
  make := make
  addOrder := addOrder
  reduceOrder := reduceOrder
  bestQuote b := .ok b.bestQuote
  worstQuote b := .ok b.worstQuote
  count b := .ok b.count

end MapBasedBookSide

end JayBeams.Itch5
