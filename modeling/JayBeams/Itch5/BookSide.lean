import JayBeams.Itch5.PriceField
import JayBeams.Library.Machine
import JayBeams.Library.OrderedMap
import Mathlib.Order.Defs.LinearOrder

/-!
# Sides of a book

The two sides of a book differ in the comparator that orders their levels, `std::greater` for buys
and `std::less` for sells, and in the quote reported when the side is empty. `Side.Better` is the
comparator: `s.Better a b` says that `a` is strictly better than `b`.

`BookType` is what `order_book` and `compute_book` ask of the types of the two sides: a
configuration, a constructor, the two operations and the observers. `sideMachine` runs sequences of
operations.

The bare content of a side is a `Depth`, the quantity at each level in order of preference. It has
the two updates of a book side, `addQty` and `reduceQty`, and its first entry is the inside.
-/

set_option autoImplicit false

namespace JayBeams.Itch5

open Containers Machines

/-- The side of a book, which stands for the template parameter `compare_t`. -/
inductive Side where
  | buy
  | sell
  deriving DecidableEq, Repr

namespace Side

/-- `a` is strictly better than `b`: higher for buys, lower for sells. -/
def Better : Side → Nat → Nat → Prop
  | buy, a, b => b < a
  | sell, a, b => a < b

/-- Which of two prices is better can be decided. -/
instance (s : Side) : DecidableRel s.Better := fun a b =>
  match s with
  | buy => inferInstanceAs (Decidable (b < a))
  | sell => inferInstanceAs (Decidable (a < b))

@[simp] theorem better_buy (a b : Nat) : buy.Better a b ↔ b < a := Iff.rfl

@[simp] theorem better_sell (a b : Nat) : sell.Better a b ↔ a < b := Iff.rfl

/-- The levels of a side are in a strict total order. -/
instance (s : Side) : IsStrictTotalOrder Nat s.Better where
  irrefl a := by cases s <;> simp
  trans a b c := by cases s <;> simp <;> omega
  trichotomous a b := by cases s <;> simp <;> omega

instance (s : Side) : IsTrans Nat s.Better := inferInstance

/-- A better price than a better one is better. -/
theorem better_trans {s : Side} {a b c : Nat} (h₁ : s.Better a b) (h₂ : s.Better b c) :
    s.Better a c :=
  trans_of s.Better h₁ h₂

/-- No price is better than itself. -/
theorem not_better_self (s : Side) (a : Nat) : ¬ s.Better a a := irrefl_of s.Better a

/-- Of two prices one is better at most. -/
theorem better_asymm {s : Side} {a b : Nat} (h : s.Better a b) : ¬ s.Better b a :=
  fun h' => s.not_better_self a (better_trans h h')

/-- Two prices of which none is better are equal. -/
theorem eq_of_not_better {s : Side} {a b : Nat} (h₁ : ¬ s.Better a b) (h₂ : ¬ s.Better b a) :
    a = b := by
  rcases trichotomous_of s.Better a b with h | h | h
  · exact absurd h h₁
  · exact h
  · exact absurd h h₂

/-- What is not better than a price that is not better is not better. -/
theorem not_better_trans {s : Side} {a b c : Nat} (h₁ : ¬ s.Better a b) (h₂ : ¬ s.Better b c) :
    ¬ s.Better a c := by
  cases s <;> simp at * <;> omega

/-- A price is better than those that are not better than a worse one. -/
theorem better_of_better_of_not_better {s : Side} {a b c : Nat} (h₁ : s.Better a b)
    (h₂ : ¬ s.Better c b) : s.Better a c := by
  cases s <;> simp at * <;> omega

/-- A price is better than those worse than one that is not better than it. -/
theorem better_of_not_better_of_better {s : Side} {a b c : Nat} (h₁ : ¬ s.Better b a)
    (h₂ : s.Better b c) : s.Better a c := by
  cases s <;> simp at * <;> omega

/-- `empty_quote` -/
def emptyQuote : Side → HalfQuote
  | buy => emptyBid
  | sell => emptyOffer

/-- The quote for an entry of a book, empty when there is none. -/
def quote (s : Side) (keyPrice : Nat → Nat) : Option (Nat × Int) → HalfQuote
  | none => s.emptyQuote
  | some e => ⟨keyPrice e.1, e.2⟩

/-- `empty_quote_price` -/
def emptyQuotePrice : Side → Nat
  | buy => emptyBidPrice
  | sell => emptyOfferPrice

end Side

/-- What `order_book` asks of the types of its sides. -/
class BookType (β : Side → Type) where
  Config : Type
  make : Config → (s : Side) → β s
  addOrder {s : Side} (px : Nat) (qty : Int) : EStateM Failure (β s) Bool
  reduceOrder {s : Side} (px : Nat) (qty : Int) : EStateM Failure (β s) Bool
  bestQuote {s : Side} : β s → Except Failure HalfQuote
  worstQuote {s : Side} : β s → Except Failure HalfQuote
  count {s : Side} : β s → Except Failure Nat

/-- The operations on a side of a book. -/
inductive BookOp where
  | add (px : Nat) (qty : Int)
  | reduce (px : Nat) (qty : Int)
  deriving DecidableEq, Repr

namespace BookOp

/-- The price of the operation -/
def px : BookOp → Nat
  | add px _ => px
  | reduce px _ => px

/-- The quantity of the operation -/
def qty : BookOp → Int
  | add _ qty => qty
  | reduce _ qty => qty

/-- `validate_operation_params` accepts the parameters. -/
def Accepted (op : BookOp) : Prop := 0 < op.qty ∧ op.px < maxPriceFieldValue price4

/-- The operation on a side of a book -/
def action {β : Side → Type} [BookType β] {s : Side} : BookOp → EStateM Failure (β s) Bool
  | add px qty => BookType.addOrder px qty
  | reduce px qty => BookType.reduceOrder px qty

end BookOp

/-- A side of a book as a machine: it runs one operation at a time. -/
def sideMachine (β : Side → Type) [BookType β] (s : Side) :
    Machine (β s) BookOp (Except Failure Bool) :=
  Machine.ofAction BookOp.action

/-- What an operation does that checks what it is given: it is done, or raises `feed_error` when
that is not accepted, and keeps a property of the state. Where `mayFault`, what is accepted may also
lead to a fault. -/
inductive Checked {σ α : Type} (Inv : σ → Prop) (accepted mayFault : Prop) :
    EStateM.Result Failure σ α → Prop where
  | done {a : α} {t : σ} (h : accepted) (ht : Inv t) : Checked Inv accepted mayFault (.ok a t)
  | fault {e : Failure} {t : σ} (h : accepted) (hmay : mayFault) (he : e.isFault = true) :
      Checked Inv accepted mayFault (.error e t)
  | raised {f : FeedError} {t : σ} (h : ¬ accepted) (ht : Inv t) :
      Checked Inv accepted mayFault (.error (.feedError f) t)

namespace Checked

variable {σ τ α : Type} {Inv : σ → Prop} {accepted mayFault : Prop}
  {res : EStateM.Result Failure σ α}

/-- `feed_error` is raised exactly when the parameters are not accepted. -/
theorem raises_iff (h : Checked Inv accepted mayFault res) :
    (∃ f t, res = .error (.feedError f) t) ↔ ¬ accepted := by
  cases h with
  | done hacc ht => simp [hacc]
  | fault hacc _ he =>
      simp only [hacc, not_true, iff_false]
      rintro ⟨f, t, heq⟩
      cases heq
      exact absurd he (by simp [Failure.isFault])
  | raised hacc ht => exact iff_of_true ⟨_, _, rfl⟩ hacc

/-- The same operation with what it accepts said in other words. -/
theorem congr {accepted' : Prop} (h : Checked Inv accepted mayFault res)
    (hiff : accepted ↔ accepted') : Checked Inv accepted' mayFault res := by
  cases h with
  | done hacc ht => exact .done (hiff.1 hacc) ht
  | fault hacc hmay he => exact .fault (hiff.1 hacc) hmay he
  | raised hrej ht => exact .raised (fun hacc => hrej (hiff.2 hacc)) ht

/-- The property is kept unless there was a fault. -/
theorem final (h : Checked Inv accepted mayFault res)
    (hout : ∀ e t, res = .error e t → e.isFault = false) :
    Inv (Machine.finalState res) := by
  cases h with
  | done _ ht => exact ht
  | fault _ _ he => exact Bool.noConfusion (he.symm.trans (hout _ _ rfl))
  | raised _ ht => exact ht

/-- An operation on a part of the state. -/
theorem onPart {part : τ → σ} {update : σ → τ → τ} {act : EStateM Failure σ α} {t : τ}
    {InvAll : τ → Prop} (h : Checked Inv accepted mayFault (act.run (part t)))
    (hupdate : ∀ c, Inv c → InvAll (update c t)) :
    Checked InvAll accepted mayFault ((JayBeams.onPart part update act).run t) := by
  cases hres : act.run (part t) with
  | ok a c =>
      rw [onPart_run_ok part update hres]
      rw [hres] at h
      cases h with
      | done hacc hc => exact .done hacc (hupdate c hc)
  | error e c =>
      rw [onPart_run_error part update hres]
      rw [hres] at h
      cases h with
      | fault hacc hmay he => exact .fault hacc hmay he
      | raised hacc hc => exact .raised hacc (hupdate c hc)

end Checked

/-! ## The content of a side -/

/-- Quantities by price or by level, the best one first. -/
abbrev Depth (s : Side) := OrderedMap Nat Int s.Better

namespace Depth

variable {s : Side}

/-- The quantity at a key, zero when there is none. -/
def qtyAt (d : Depth s) (k : Nat) : Int := (d.find? k).getD 0

/-- The key of the inside. -/
def bestKey (d : Depth s) : Option Nat := d.first?.map Prod.fst

/-- Add a quantity at a key, new or not. -/
def addQty (d : Depth s) (k : Nat) (qty : Int) : Depth s :=
  (d.emplace k 0).modify k fun x => int32 (x + qty)

/-- Take a quantity away from a key, and the key with it when nothing remains. -/
def reduceQty (d : Depth s) (k : Nat) (qty : Int) : Depth s :=
  if int32 (d.qtyAt k - qty) ≤ 0 then d.erase k else d.modify k fun x => int32 (x - qty)

/-- Every level holds a positive quantity that fits in an `int`. -/
def Positive (d : Depth s) : Prop := ∀ k x, d.find? k = some x → 0 < x ∧ FitsInt x

/-- An addition changes the level of its key alone. -/
theorem find?_addQty (d : Depth s) (k j : Nat) (qty : Int) :
    (d.addQty k qty).find? j = if j = k then some (int32 (d.qtyAt k + qty)) else d.find? j := by
  unfold addQty
  rw [OrderedMap.find?_modify, OrderedMap.find?_emplace, OrderedMap.find?_emplace]
  by_cases hjk : j = k
  · simp [hjk, qtyAt]
  · simp [hjk]

/-- A reduction changes the level of its key alone, or erases it. -/
theorem find?_reduceQty (d : Depth s) (k j : Nat) (qty : Int) :
    (d.reduceQty k qty).find? j =
      if j = k then
        if int32 (d.qtyAt k - qty) ≤ 0 then none
        else (d.find? k).map fun x => int32 (x - qty)
      else d.find? j := by
  unfold reduceQty
  by_cases hq : int32 (d.qtyAt k - qty) ≤ 0
  · rw [if_pos hq, OrderedMap.find?_erase, if_pos hq]
  · rw [if_neg hq, OrderedMap.find?_modify, if_neg hq]

/-- There is no inside exactly when there is no level. -/
theorem bestKey_eq_none_iff {d : Depth s} : d.bestKey = none ↔ ∀ k, d.find? k = none := by
  rw [bestKey, Option.map_eq_none_iff, OrderedMap.first?_eq_none_iff]

/-- The inside is the key that is better than every other one. -/
theorem bestKey_eq_some_iff {d : Depth s} {k : Nat} :
    d.bestKey = some k ↔ d.find? k ≠ none ∧ ∀ j, j ≠ k → d.find? j ≠ none → s.Better k j := by
  rw [bestKey, Option.map_eq_some_iff]
  constructor
  · rintro ⟨⟨k', x⟩, hfirst, rfl⟩
    obtain ⟨hfind, hbest⟩ := OrderedMap.first?_eq_some_iff.1 hfirst
    exact ⟨by simp [hfind], hbest⟩
  · rintro ⟨hfind, hbest⟩
    obtain ⟨x, hx⟩ := Option.ne_none_iff_exists'.1 hfind
    exact ⟨(k, x), OrderedMap.first?_eq_some_iff.2 ⟨hx, hbest⟩, rfl⟩

/-- No level is better than the inside. -/
theorem not_better_bestKey {d : Depth s} {j k : Nat} (h : d.bestKey = some k)
    (hj : d.find? j ≠ none) : ¬ s.Better j k := by
  rcases eq_or_ne j k with rfl | hjk
  · exact s.not_better_self j
  · exact Side.better_asymm ((bestKey_eq_some_iff.1 h).2 j hjk hj)

/-- The inside depends on the keys only. -/
theorem bestKey_congr {d e : Depth s} (h : ∀ k, d.find? k = none ↔ e.find? k = none) :
    d.bestKey = e.bestKey := by
  cases he : e.bestKey with
  | none => exact bestKey_eq_none_iff.2 fun k => (h k).2 (bestKey_eq_none_iff.1 he k)
  | some k =>
      obtain ⟨hk, hbest⟩ := bestKey_eq_some_iff.1 he
      refine bestKey_eq_some_iff.2 ⟨fun hn => hk ((h k).1 hn), fun j hjk hj => ?_⟩
      exact hbest j hjk fun hn => hj ((h j).2 hn)

/-- The inside after an addition is the better one of the inside and the key. -/
theorem bestKey_addQty (d : Depth s) (k : Nat) (qty : Int) :
    (d.addQty k qty).bestKey =
      match d.bestKey with
      | none => some k
      | some j => if s.Better j k then some j else some k := by
  have hfind : ∀ j, (d.addQty k qty).find? j = none ↔ j ≠ k ∧ d.find? j = none := fun j => by
    rw [find?_addQty]
    by_cases hjk : j = k <;> simp [hjk]
  cases hbest : d.bestKey with
  | none =>
      have hnone := bestKey_eq_none_iff.1 hbest
      refine bestKey_eq_some_iff.2 ⟨fun h => ((hfind k).1 h).1 rfl, fun j hjk hj => ?_⟩
      exact absurd ((hfind j).2 ⟨hjk, hnone j⟩) hj
  | some i =>
      obtain ⟨hi, hmax⟩ := bestKey_eq_some_iff.1 hbest
      -- Every key other than the new one was there before, and is not better than the old inside.
      have hothers : ∀ j, (d.addQty k qty).find? j ≠ none → j ≠ k → ¬ s.Better j i := by
        intro j hj hjk
        refine not_better_bestKey hbest fun hn => hj ((hfind j).2 ⟨hjk, hn⟩)
      simp only []
      split_ifs with hik
      · refine bestKey_eq_some_iff.2 ⟨fun h => hi ((hfind i).1 h).2, fun j hji hj => ?_⟩
        rcases eq_or_ne j k with rfl | hjk
        · exact hik
        · exact hmax j hji fun hn => hj ((hfind j).2 ⟨hjk, hn⟩)
      · refine bestKey_eq_some_iff.2 ⟨fun h => ((hfind k).1 h).1 rfl, fun j hjk hj => ?_⟩
        -- A key better than the new one is no better than the inside, which then is better too.
        by_contra hkj
        have hji : ¬ s.Better j i := hothers j hj hjk
        have hjk' : s.Better j k := by
          by_contra h
          exact hjk (Side.eq_of_not_better h hkj)
        exact hik (Side.better_of_not_better_of_better hji hjk')

/-- No level of a positive depth holds a negative quantity. -/
theorem qtyAt_nonneg {d : Depth s} (hd : d.Positive) (k : Nat) : 0 ≤ d.qtyAt k := by
  cases hk : d.find? k with
  | none => simp [qtyAt, hk]
  | some x =>
      have := (hd k x hk).1
      simp only [qtyAt, hk, Option.getD_some]
      omega

/-- An addition changes the quantity of its key alone. -/
theorem qtyAt_addQty (d : Depth s) (k j : Nat) (qty : Int) :
    (d.addQty k qty).qtyAt j = if j = k then int32 (d.qtyAt k + qty) else d.qtyAt j := by
  rw [qtyAt, find?_addQty]
  split_ifs <;> rfl

/-- In a positive depth a key is there exactly when its quantity is not zero. -/
theorem qtyAt_eq_zero_iff {d : Depth s} (hd : d.Positive) {k : Nat} :
    d.qtyAt k = 0 ↔ d.find? k = none := by
  cases hk : d.find? k with
  | none => simp [qtyAt, hk]
  | some x =>
      have := (hd k x hk).1
      simp only [qtyAt, hk, Option.getD_some, reduceCtorEq, iff_false]
      omega

/-- A level of a positive depth holds an `int`. -/
theorem fitsInt_qtyAt {d : Depth s} (hd : d.Positive) (k : Nat) : FitsInt (d.qtyAt k) := by
  cases hk : d.find? k with
  | none => simp [qtyAt, hk, FitsInt]
  | some x => simpa [qtyAt, hk] using (hd k x hk).2

/-- What is left of a level after a reduction that it covers or not. -/
theorem qtyAt_reduceQty {d : Depth s} (hd : d.Positive) (k j : Nat) {qty : Int} (hq : 0 < qty)
    (hfit : FitsInt qty) :
    (d.reduceQty k qty).qtyAt j = if j = k then max 0 (d.qtyAt k - qty) else d.qtyAt j := by
  have hnonneg := qtyAt_nonneg hd k
  have hfitk := fitsInt_qtyAt hd k
  -- The difference of a quantity and a positive one does not overflow.
  have hsub : int32 (d.qtyAt k - qty) = d.qtyAt k - qty := by
    apply int32_of_fits
    unfold FitsInt at *
    omega
  rw [qtyAt, find?_reduceQty, hsub]
  by_cases hjk : j = k
  · rw [if_pos hjk, if_pos hjk]
    by_cases hle : d.qtyAt k - qty ≤ 0
    · rw [if_pos hle]
      exact (max_eq_left hle).symm
    · rw [if_neg hle, max_eq_right (by omega)]
      cases hk : d.find? k with
      | none => simp [qtyAt, hk] at hle; omega
      | some x => simpa [qtyAt, hk] using hsub
  · rw [if_neg hjk, if_neg hjk]
    rfl

/-- There is a level where the quantity is positive. -/
theorem find?_eq_of_qtyAt_pos {d : Depth s} {k : Nat} (h : 0 < d.qtyAt k) :
    d.find? k = some (d.qtyAt k) := by
  cases hk : d.find? k with
  | none => simp [qtyAt, hk] at h
  | some x => simp [qtyAt, hk]

/-- The empty depth is positive. -/
theorem positive_empty : Positive (OrderedMap.empty : Depth s) := by
  intro k x h
  simp at h

/-- A positive depth stays so when a positive quantity is added that does not overflow. -/
theorem positive_addQty {d : Depth s} (hd : d.Positive) {k : Nat} {qty : Int} (hq : 0 < qty)
    (hfit : FitsInt (d.qtyAt k + qty)) : (d.addQty k qty).Positive := by
  intro j x h
  rw [find?_addQty] at h
  by_cases hjk : j = k
  · rw [if_pos hjk, Option.some.injEq, int32_of_fits hfit] at h
    have := qtyAt_nonneg hd k
    exact h ▸ ⟨by omega, hfit⟩
  · rw [if_neg hjk] at h
    exact hd j x h

/-- A positive depth stays so when a positive quantity is taken away. -/
theorem positive_reduceQty {d : Depth s} (hd : d.Positive) (k : Nat) {qty : Int} (hq : 0 < qty)
    (hfit : FitsInt qty) : (d.reduceQty k qty).Positive := by
  intro j x h
  rw [find?_reduceQty] at h
  by_cases hjk : j = k
  · rw [if_pos hjk] at h
    cases hk : d.find? k with
    | none => simp [hk] at h
    | some y =>
        obtain ⟨hy, hyfit⟩ := hd k y hk
        have hfit' : FitsInt (y - qty) := by
          unfold FitsInt at *
          omega
        simp only [hk, qtyAt, Option.getD_some, int32_of_fits hfit', Option.map_some] at h
        by_cases hle : y - qty ≤ 0
        · simp [hle] at h
        · rw [if_neg hle, Option.some.injEq] at h
          exact h ▸ ⟨by omega, hfit'⟩
  · rw [if_neg hjk] at h
    exact hd j x h

/-- Nothing is taken away where there is no level. -/
theorem reduceQty_of_none {d : Depth s} {k : Nat} (h : d.find? k = none) (qty : Int) :
    d.reduceQty k qty = d := by
  apply OrderedMap.ext_find?
  intro j
  rw [find?_reduceQty]
  split_ifs with hjk
  · rw [hjk, h]
  · rw [hjk, h, Option.map_none]
  · rfl

/-- A reduction does not change the inside when it is at another key, or leaves some quantity. -/
theorem bestKey_reduceQty {d : Depth s} (hd : d.Positive) {k : Nat} {qty : Int} (hq : 0 < qty)
    (hfit : FitsInt qty) (h : d.bestKey ≠ some k ∨ qty < d.qtyAt k) :
    (d.reduceQty k qty).bestKey = d.bestKey := by
  have hpos := positive_reduceQty hd k hq hfit
  have hfind : ∀ j, j ≠ k → ((d.reduceQty k qty).find? j = none ↔ d.find? j = none) := by
    intro j hjk
    rw [find?_reduceQty, if_neg hjk]
  rcases h with hne | hlt
  · cases hbest : d.bestKey with
    | none =>
        have hnone := bestKey_eq_none_iff.1 hbest
        refine bestKey_eq_none_iff.2 fun j => ?_
        by_cases hjk : j = k
        · rw [← qtyAt_eq_zero_iff hpos, qtyAt_reduceQty hd k j hq hfit, if_pos hjk, qtyAt, hnone k,
            Option.getD_none]
          exact max_eq_left (by omega)
        · exact (hfind j hjk).2 (hnone j)
    | some i =>
        obtain ⟨hi, hmax⟩ := bestKey_eq_some_iff.1 hbest
        -- The inside is another level, which the reduction leaves alone.
        have hik : i ≠ k := fun he => hne (by rw [hbest, he])
        refine bestKey_eq_some_iff.2 ⟨fun hn => hi ((hfind i hik).1 hn), fun j hji hj => ?_⟩
        refine hmax j hji fun hn => hj ?_
        by_cases hjk : j = k
        · rw [← qtyAt_eq_zero_iff hpos, qtyAt_reduceQty hd k j hq hfit, if_pos hjk, qtyAt, ← hjk, hn,
            Option.getD_none]
          exact max_eq_left (by omega)
        · exact (hfind j hjk).2 hn
  · apply bestKey_congr
    intro j
    by_cases hjk : j = k
    · rw [← qtyAt_eq_zero_iff hpos, ← qtyAt_eq_zero_iff hd, qtyAt_reduceQty hd k j hq hfit,
        if_pos hjk, hjk, max_eq_right (by omega)]
      constructor
      · intro h0
        omega
      · intro h0
        omega
    · exact hfind j hjk

end Depth

end JayBeams.Itch5
