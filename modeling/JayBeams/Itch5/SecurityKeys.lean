import JayBeams.Itch5.ComputeBook
import JayBeams.Itch5.ShortStringField

/-!
# Securities as keys

`books_` is a hash map whose keys are short string fields. Two fields that compare equal may have
different hash codes, and then the map holds an entry for each of them. This happens exactly when the
fields agree up to their first blank and differ after it.

The books of a run have the securities of its messages as keys (`keysFrom_run`), so that a run whose
securities are all padded the same way never has two books whose keys compare equal.
-/

set_option autoImplicit false

namespace JayBeams.Itch5

open Bytes Containers Machines Machines.Machine

namespace Message

/-- The security that a message brings with it. -/
def stock? {κ : Type} : Message κ → Option κ
  | addOrder msg => some msg.stock
  | addOrderMpid msg => some msg.stock
  | stockDirectory msg => some msg.stock
  | _ => none

end Message

namespace ComputeBook

section Keys

variable {κ : Type} [BEq κ] {β : Side → Type} [BookType β]

/-- The map of the books hashes with the given function, and its keys are among the given ones. -/
structure KeysFrom (hashValue : κ → UInt64) (stocks : List κ) (cb : ComputeBook κ β) : Prop where
  hash : cb.books.hash = hashValue
  keys : ∀ k ∈ cb.books.keys, k ∈ stocks

variable {hashValue : κ → UInt64} {stocks : List κ}

theorem keysFrom_make (cfg : BookType.Config β) :
    KeysFrom hashValue stocks (make hashValue cfg : ComputeBook κ β) where
  hash := rfl
  keys k hk := by simp [make, UnorderedMap.keys, UnorderedMap.empty] at hk

/-- A change of the orders alone keeps the keys. -/
theorem KeysFrom.setOrders {cb : ComputeBook κ β} (h : KeysFrom hashValue stocks cb)
    (orders : UnorderedMap UInt64 (OrderData κ)) :
    KeysFrom hashValue stocks { cb with orders := orders } :=
  ⟨h.hash, h.keys⟩

theorem KeysFrom.modify {cb : ComputeBook κ β} (h : KeysFrom hashValue stocks cb) (stock : κ)
    (f : OrderBook β → OrderBook β) :
    KeysFrom hashValue stocks { cb with books := cb.books.modify stock f } where
  hash := h.hash
  keys k hk := by
    rw [UnorderedMap.keys_modify] at hk
    exact h.keys k hk

theorem KeysFrom.emplace {cb : ComputeBook κ β} (h : KeysFrom hashValue stocks cb) {stock : κ}
    (hstock : stock ∈ stocks) (book : OrderBook β) :
    KeysFrom hashValue stocks { cb with books := cb.books.emplace stock book } where
  hash := (UnorderedMap.hash_emplace ..).trans h.hash
  keys k hk := by
    cases hfind : cb.books.find? stock with
    | some b =>
        rw [UnorderedMap.emplace_of_find? hfind] at hk
        exact h.keys k hk
    | none =>
        rw [UnorderedMap.keys, UnorderedMap.entries_emplace hfind, List.map_append,
          List.mem_append] at hk
        rcases hk with hk | hk
        · exact h.keys k hk
        · rw [List.map_singleton, List.mem_singleton] at hk
          exact hk ▸ hstock

variable {recvts : Int}

variable (hashValue stocks) in
theorem updateBook_keys (stock : κ) (book : OrderBook β)
    (act : EStateM Failure (OrderBook β) Bool) :
    Keeps (KeysFrom hashValue stocks) (updateBook (κ := κ) stock book act) := by
  constructor
  intro cb h
  cases hact : act.run book with
  | ok a b =>
      simp only [updateBook, EStateM.run] at hact ⊢
      simp only [hact]
      exact h.modify stock fun _ => b
  | error e b =>
      simp only [updateBook, EStateM.run] at hact ⊢
      simp only [hact]
      exact h.modify stock fun _ => b

theorem handleAddOrder_keys {msg : AddOrderMessage κ} (hstock : msg.stock ∈ stocks) :
    Keeps (KeysFrom hashValue stocks) (handleAddOrder (β := β) recvts msg) := by
  apply Keeps.bind Keeps.get
  intro before
  apply Keeps.bind (Keeps.modify fun cb h => h.setOrders _)
  intro _
  split
  · exact Keeps.pure none
  · have hupdate := fun book : OrderBook β => updateBook_keys hashValue stocks
      msg.stock book
      (OrderBook.handleAddOrder msg.buySellIndicator msg.price msg.shares)
    -- the book of the security is found or created
    cases before.books.find? msg.stock with
    | some book =>
        apply Keeps.bind (Keeps.pure book)
        intro book
        exact Keeps.bind (hupdate book) fun _ => Keeps.pure _
    | none =>
        apply Keeps.bind (Keeps.modify fun cb h => h.emplace hstock _)
        intro _
        apply Keeps.bind (Keeps.pure _)
        intro book
        exact Keeps.bind (hupdate book) fun _ => Keeps.pure _

theorem doReduce_keys (id : UInt64) (data : OrderData κ) (book : OrderBook β) (shares : UInt32) :
    Keeps (KeysFrom hashValue stocks) (doReduce recvts id data book shares) := by
  apply Keeps.bind (Keeps.modify fun cb h => h.setOrders _)
  intro _
  have hrest := fun (u : BookUpdate κ) => Keeps.bind
    (updateBook_keys hashValue stocks data.stock book
      (OrderBook.handleOrderReduced u.buySellIndicator u.px (reducedShares data shares)))
    fun b => Keeps.pure (u, b)
  split
  · exact Keeps.bind (Keeps.modify fun cb h => h.setOrders _) fun _ => hrest _
  · exact hrest _

theorem handleOrderReduction_keys (header : MessageHeader) (id : UInt64) (shares : UInt32) :
    Keeps (KeysFrom hashValue stocks)
      (handleOrderReduction (κ := κ) (β := β) recvts header id shares) := by
  apply Keeps.bind Keeps.get
  intro before
  split
  · exact Keeps.pure none
  · split
    · exact Keeps.throw _
    · exact Keeps.bind (doReduce_keys id _ _ shares) fun _ => Keeps.pure _

theorem handleOrderReplace_keys (msg : OrderReplaceMessage) :
    Keeps (KeysFrom hashValue stocks) (handleOrderReplace (κ := κ) (β := β) recvts msg) := by
  apply Keeps.bind Keeps.get
  intro before
  split
  · exact Keeps.pure none
  · split
    · exact Keeps.pure none
    · split
      · exact Keeps.throw _
      · apply Keeps.bind (doReduce_keys _ _ _ 0)
        intro reduced
        apply Keeps.bind (Keeps.modify fun cb h => h.setOrders _)
        intro _
        exact Keeps.bind (updateBook_keys _ _ _ _ _) fun _ => Keeps.pure _

/-- A message creates at most the book of the security that it brings. -/
theorem handleMessage_keys {msg : Message κ} (hstock : ∀ k, msg.stock? = some k → k ∈ stocks) :
    Keeps (KeysFrom hashValue stocks) (handleMessage (β := β) recvts msg) := by
  cases msg with
  | addOrder m => exact handleAddOrder_keys (hstock _ rfl)
  | addOrderMpid m => exact handleAddOrder_keys (hstock _ rfl)
  | orderExecuted m => exact handleOrderReduction_keys _ _ _
  | orderExecutedPrice m => exact handleOrderReduction_keys _ _ _
  | orderCancel m => exact handleOrderReduction_keys _ _ _
  | orderDelete m => exact handleOrderReduction_keys _ _ _
  | orderReplace m => exact handleOrderReplace_keys m
  | stockDirectory m =>
      exact Keeps.bind (Keeps.modify fun cb h => h.emplace (hstock _ rfl) _) fun _ => Keeps.pure none
  | other header => exact Keeps.pure none

variable (hashValue) in
/-- The books of a run have the securities of its messages as keys. -/
theorem keysFrom_run (cfg : BookType.Config β) (msgs : List (Int × Message κ)) :
    KeysFrom hashValue (msgs.filterMap fun i => i.2.stock?)
      ((machine κ β).run (make hashValue cfg) msgs).2 := by
  have hbrings : (machine κ β).Along
      (fun _ i => ∀ k, i.2.stock? = some k → k ∈ msgs.filterMap fun i => i.2.stock?)
      (make hashValue cfg) msgs := by
    apply along_of_forall
    intro i hi cb k hk
    exact List.mem_filterMap.2 ⟨i, hi, hk⟩
  refine run_invariant ?_ hbrings (keysFrom_make cfg)
  intro cb i hcb hi
  rw [machine, ofAction_step_state]
  exact (handleMessage_keys hi).final cb hcb

end Keys

end ComputeBook

namespace ShortStringField

variable {wireSize : Nat}

section Run

variable {β : Side → Type} [BookType β]

/-- The securities that the messages of a run bring. -/
def stocks (msgs : List (Int × Message (ShortStringField wireSize))) :
    List (ShortStringField wireSize) :=
  msgs.filterMap fun i => i.2.stock?

/-- The books after a run. -/
def booksAfter (β : Side → Type) [BookType β] (hashRange : List UInt8 → UInt64)
    (cfg : BookType.Config β) (msgs : List (Int × Message (ShortStringField wireSize))) :
    ComputeBook (ShortStringField wireSize) β :=
  ((ComputeBook.machine _ β).run (ComputeBook.make (hashValue hashRange) cfg) msgs).2

/-- No two keys of the books compare equal when equal securities have equal hash codes. -/
theorem symbols_differ {hashRange : List UInt8 → UInt64} (cfg : BookType.Config β)
    {msgs : List (Int × Message (ShortStringField wireSize))}
    (h : ∀ a ∈ stocks msgs, ∀ b ∈ stocks msgs,
      (a == b) = true → hashValue hashRange a = hashValue hashRange b) :
    (booksAfter β hashRange cfg msgs).symbols.Pairwise fun a b => (a == b) = false := by
  obtain ⟨hhash, hkeys⟩ := ComputeBook.keysFrom_run (hashValue hashRange) cfg msgs
  refine List.Pairwise.imp_of_mem ?_ (booksAfter β hashRange cfg msgs).books.pairwise_keys
  intro a b ha hb hab
  by_contra hne
  have hequal : (a == b) = true := by simpa using hne
  have hcode := h a (hkeys a ha) b (hkeys b hb) hequal
  have hsame : sameKey (booksAfter β hashRange cfg msgs).books.hash a b = true := by
    rw [booksAfter, hhash, sameKey, hcode, hequal]
    simp
  rw [hsame] at hab
  cases hab

/-- Equality and hash codes of two fields agree exactly when the fields do not differ in their padding
alone, and a run over securities that never do keeps one book for each of them. -/
theorem lawful_key_iff (hn : wireSize < 2 ^ 63) :
    (∀ {ca cb : List UInt8} {a b : ShortStringField wireSize}, BuiltFrom ca a → BuiltFrom cb b →
      ((∀ hashRange, (a == b) = true → hashValue hashRange a = hashValue hashRange b) ↔
        SamePadding ca cb)) ∧
    (∀ hashRange (cfg : BookType.Config β)
        (msgs : List (Int × Message (ShortStringField wireSize))),
      (∀ a ∈ stocks msgs, ∀ b ∈ stocks msgs,
        ∃ ca cb, BuiltFrom ca a ∧ BuiltFrom cb b ∧ SamePadding ca cb) →
      (booksAfter β hashRange cfg msgs).symbols.Pairwise fun a b => (a == b) = false) := by
  refine ⟨fun ha hb => hashValue_of_beq_iff hn ha hb, ?_⟩
  intro hashRange cfg msgs hpadding
  apply symbols_differ
  intro a ha b hb
  obtain ⟨ca, cb, hca, hcb, hsame⟩ := hpadding a ha b hb
  exact (hashValue_of_beq_iff hn hca hcb).2 hsame hashRange

end Run

/-! ## A symbol with two paddings -/

/-- The five characters of a symbol. -/
def hsart : List UInt8 := [72, 83, 65, 82, 84]

/-- The field made from the string of the symbol. -/
def fromString : ShortStringField 8 := ofString hsart

/-- The field decoded from the characters of the symbol and a padding of three more. -/
def fromWire (padding : List UInt8) : ShortStringField 8 :=
  assign (Memory.ofList (hsart ++ padding)) 0

theorem builtFrom_fromString : BuiltFrom (strncpy hsart 8) fromString := BuiltFrom.string hsart

theorem builtFrom_fromWire (padding : List UInt8) (h : padding.length = 3) :
    BuiltFrom (hsart ++ padding) (fromWire padding) := by
  have hread : (Memory.ofList (hsart ++ padding)).read 0 8 = hsart ++ padding := by
    have hlen : (hsart ++ padding).length = 8 := by rw [List.length_append, h]; rfl
    rw [← hlen, Memory.read_ofList]
  rw [← hread]
  exact BuiltFrom.wire (fun _ => true) false 8 0 (Memory.ofList (hsart ++ padding)) rfl

/-- Padded with NULs on the wire, the symbol is the same key as when it is made from a string. -/
theorem lawful_key_nul_padded :
    (fromString == fromWire [0, 0, 0]) = true ∧
      ∀ hashRange, hashValue hashRange fromString = hashValue hashRange (fromWire [0, 0, 0]) := by
  have hequal : (fromString == fromWire [0, 0, 0]) = true := by decide
  have hiff := (lawful_key_iff (β := MapBasedBookSide) (show 8 < 2 ^ 63 by decide)).1
    builtFrom_fromString (builtFrom_fromWire [0, 0, 0] rfl)
  exact ⟨hequal, fun hashRange => hiff.2 (fun _ => by decide) hashRange hequal⟩

/-- A directory message for a security. -/
def directory (stock : ShortStringField 8) : Int × Message (ShortStringField 8) :=
  (0, .stockDirectory ⟨⟨82, 0, 0, 0⟩, stock⟩)

/-- Padded with spaces on the wire, as the protocol has it, the symbol equals the one made from a
string but has another hash code, and a map that holds one of them takes the other as a new key. -/
theorem lawful_key_space_padded :
    BuiltFrom (strncpy hsart 8) fromString ∧
    BuiltFrom (hsart ++ [32, 32, 32]) (fromWire [32, 32, 32]) ∧
    (fromString == fromWire [32, 32, 32]) = true ∧
    ∃ hashRange,
      hashValue hashRange fromString ≠ hashValue hashRange (fromWire [32, 32, 32]) ∧
      ¬ (booksAfter MapBasedBookSide hashRange ()
        [directory fromString, directory (fromWire [32, 32, 32])]).symbols.Pairwise
          (fun a b => (a == b) = false) := by
  refine ⟨builtFrom_fromString, builtFrom_fromWire [32, 32, 32] rfl, by decide,
    fun l => (l.map UInt8.toUInt64).sum, by decide, ?_⟩
  decide

end ShortStringField

end JayBeams.Itch5
