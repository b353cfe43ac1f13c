import JayBeams.Common
import JayBeams.Library.PairList
import JayBeams.Library.SharedMap

/-!
# The nodes of YAML documents

A `YAML::Node` is a handle: two handles of one node see the same value, an assignment through one of
them shows through the other, and in a loaded document an anchor and its aliases are one node. A
`NodeStore` is the nodes that there are at some time, under numbers, with the value of each; a handle
is the number. The numbers below `size` are in use.

A node becomes a map when a key of it is asked for. A map that came to be in this way is not `held`:
it is there when one of its values is (`Defined`). Keys are scalars, as everywhere in the
configuration files.

A section is a map of scalars (`IsSection`). `content` is what it says, as a map some of whose keys
share a cell. Nodes that a store only gains do not change what can be reached from the others
(`Extends`). `Assigns` and `Clones` say how the values of one store become those of another, by an
assignment and by a copy.
-/

set_option autoImplicit false

namespace JayBeams.Yaml

open Containers

/-- The identity of a node. -/
abbrev NodeId := Nat

/-- `YAML::NodeType` -/
inductive NodeType where
  | undefined
  | null
  | scalar
  | sequence
  | map
  deriving DecidableEq, Repr

/-- The value of a node. A map that is not held is there as soon as one of its values is. -/
inductive NodeValue where
  | undefined
  | null
  | scalar (text : String)
  | sequence (items : List NodeId)
  | map (held : Bool) (pairs : List (String × NodeId))
  deriving DecidableEq, Repr

namespace NodeValue

/-- The type of a node with this value, when it is defined. -/
def type : NodeValue → NodeType
  | undefined => .undefined
  | null => .null
  | scalar _ => .scalar
  | sequence _ => .sequence
  | map _ _ => .map

/-- The pairs of a map. -/
def pairs : NodeValue → List (String × NodeId)
  | map _ pairs => pairs
  | _ => []

/-- The nodes that a value refers to. -/
def refs : NodeValue → List NodeId
  | sequence items => items
  | v => v.pairs.map Prod.snd

/-- The value is there by itself. -/
def held : NodeValue → Bool
  | undefined => false
  | map held _ => held
  | _ => true

theorem mem_refs_of_mem_pairs {v : NodeValue} {p : String × NodeId} (h : p ∈ v.pairs) :
    p.2 ∈ v.refs := by
  cases v with
  | map held pairs => exact List.mem_map_of_mem h
  | sequence items => cases h
  | undefined => cases h
  | null => cases h
  | scalar x => cases h

theorem type_ne_undefined {v : NodeValue} (h : v.held = true) : v.type ≠ .undefined := by
  intro htype
  cases v with
  | undefined => cases h
  | null => cases htype
  | scalar x => cases htype
  | sequence items => cases htype
  | map held pairs => cases htype

end NodeValue

/-- The nodes in use and their values. -/
structure NodeStore where
  size : Nat
  value : NodeId → NodeValue

namespace NodeStore

variable (s : NodeStore)

/-! ## Reading -/

/-- A node is defined when its value is there by itself, or when a value under one of its keys is
defined. -/
inductive Defined (s : NodeStore) : NodeId → Prop where
  | held {n : NodeId} (h : (s.value n).held = true) : Defined s n
  | under {n : NodeId} {p : String × NodeId} (hp : p ∈ (s.value n).pairs) (h : Defined s p.2) :
      Defined s n

/-- The text of a scalar. -/
def text (n : NodeId) : Option String :=
  match s.value n with
  | .scalar t => some t
  | _ => none

/-- The value of a key of a map. -/
def find? (n : NodeId) (key : String) : Option NodeId := (s.value n).pairs.lookup key

open Classical in
/-- The pairs of a map whose values are defined. -/
noncomputable def definedPairs (n : NodeId) : List (String × NodeId) :=
  (s.value n).pairs.filter fun p => s.Defined p.2

/-- The value of a key; a handle that stands for no node has none. -/
def nested (n : Option NodeId) (name : String) : Option NodeId := n.bind fun n => s.find? n name

/-- The node at the end of a path of names. -/
def walk (s : NodeStore) : Option NodeId → List String → Option NodeId
  | n, [] => n
  | n, name :: path => s.walk (s.nested n name) path

@[simp] theorem walk_nil (n : Option NodeId) : s.walk n [] = n := rfl

@[simp] theorem walk_cons (n : Option NodeId) (name : String) (path : List String) :
    s.walk n (name :: path) = s.walk (s.nested n name) path := rfl

@[simp] theorem nested_none (name : String) : s.nested none name = none := rfl

@[simp] theorem nested_some (n : NodeId) (name : String) :
    s.nested (some n) name = s.find? n name := rfl

@[simp] theorem walk_none (path : List String) : s.walk none path = none := by
  induction path with
  | nil => rfl
  | cons name path ih => rw [walk_cons, nested_none, ih]

theorem walk_append (n : Option NodeId) (p q : List String) :
    s.walk n (p ++ q) = s.walk (s.walk n p) q := by
  induction p generalizing n with
  | nil => rfl
  | cons name p ih => rw [List.cons_append, walk_cons, walk_cons, ih]

/-- The node itself and the nodes it refers to. -/
def Owns (n i : NodeId) : Prop := i = n ∨ i ∈ (s.value n).refs

/-- Nodes in use refer to nodes in use. -/
def Closed : Prop := ∀ i, i < s.size → ∀ c ∈ (s.value i).refs, c < s.size

variable {s} {t : NodeStore} {n : NodeId}

theorem owns_self : s.Owns n n := Or.inl rfl

theorem mem_pairs_of_find? {key : String} {c : NodeId} (h : s.find? n key = some c) :
    (key, c) ∈ (s.value n).pairs := PairList.mem_of_lookup h

theorem mem_refs_of_find? {key : String} {c : NodeId} (h : s.find? n key = some c) :
    c ∈ (s.value n).refs := NodeValue.mem_refs_of_mem_pairs (mem_pairs_of_find? h)

theorem owns_of_find? {key : String} {c : NodeId} (h : s.find? n key = some c) : s.Owns n c :=
  Or.inr (mem_refs_of_find? h)

theorem find?_of_map {held : Bool} {pairs : List (String × NodeId)}
    (h : s.value n = .map held pairs) (key : String) : s.find? n key = pairs.lookup key := by
  rw [find?, h]
  rfl

theorem Closed.owns_lt (hs : s.Closed) (hn : n < s.size) {i : NodeId} (h : s.Owns n i) :
    i < s.size := by
  rcases h with rfl | h
  · exact hn
  · exact hs n hn i h

theorem Closed.pair_lt (hs : s.Closed) (hn : n < s.size) {p : String × NodeId}
    (hp : p ∈ (s.value n).pairs) : p.2 < s.size :=
  hs n hn p.2 (NodeValue.mem_refs_of_mem_pairs hp)

theorem text_eq_some_iff {i : NodeId} {x : String} : s.text i = some x ↔ s.value i = .scalar x := by
  rw [text]
  cases s.value i <;> simp

theorem defined_of_text {x : String} (h : s.text n = some x) : s.Defined n := by
  apply Defined.held
  rw [text_eq_some_iff.1 h]
  rfl

theorem mem_definedPairs {p : String × NodeId} :
    p ∈ s.definedPairs n ↔ p ∈ (s.value n).pairs ∧ s.Defined p.2 := by
  simp [definedPairs]

theorem definedPairs_eq (h : ∀ p ∈ (s.value n).pairs, s.Defined p.2) :
    s.definedPairs n = (s.value n).pairs := by
  rw [definedPairs, List.filter_eq_self]
  intro p hp
  simpa using h p hp

open Classical in
theorem lookup_definedPairs (hkeys : ((s.value n).pairs.map Prod.fst).Nodup) (key : String) :
    (s.definedPairs n).lookup key = (s.find? n key).filter fun c => s.Defined c :=
  PairList.lookup_filter hkeys (fun c => decide (s.Defined c)) key

/-! ## Sections -/

/-- A map of scalars. -/
def IsSection (s : NodeStore) (n : NodeId) : Prop :=
  ∃ fields, s.value n = .map true fields ∧ (fields.map Prod.fst).Nodup ∧
    ∀ f ∈ fields, ∃ x, s.value f.2 = .scalar x

/-- What a map says about its keys. Two keys share a cell when their values are one node. -/
def content (s : NodeStore) (n : NodeId) : SharedMap String String where
  same a b := a = b ∨ (s.find? n a = s.find? n b ∧ s.find? n a ≠ none)
  get? key := (s.find? n key).bind s.text
  equivalence := by
    refine ⟨fun a => Or.inl rfl, fun {a b} h => ?_, fun {a b c} h₁ h₂ => ?_⟩
    · rcases h with rfl | ⟨h, hne⟩
      · exact Or.inl rfl
      · exact Or.inr ⟨h.symm, h ▸ hne⟩
    · rcases h₁ with rfl | ⟨h₁, hne⟩
      · exact h₂
      · rcases h₂ with rfl | ⟨h₂, -⟩
        · exact Or.inr ⟨h₁, hne⟩
        · exact Or.inr ⟨h₁.trans h₂, hne⟩
  get?_eq_of_same := by
    rintro a b (rfl | ⟨h, -⟩)
    · rfl
    · simp only [h]

theorem content_same_iff {a b : String} : (s.content n).same a b ↔
    a = b ∨ (s.find? n a = s.find? n b ∧ s.find? n a ≠ none) := Iff.rfl

@[simp] theorem get?_content (key : String) :
    (s.content n).get? key = (s.find? n key).bind s.text := rfl

namespace IsSection

/-- The fields of a section are scalars. -/
theorem text_of_mem (h : s.IsSection n) {p : String × NodeId} (hp : p ∈ (s.value n).pairs) :
    ∃ x, s.text p.2 = some x := by
  obtain ⟨fields, hv, -, hscalar⟩ := h
  rw [hv] at hp
  obtain ⟨x, hx⟩ := hscalar p hp
  exact ⟨x, text_eq_some_iff.2 hx⟩

theorem text_of_find? (h : s.IsSection n) {key : String} {c : NodeId}
    (hc : s.find? n key = some c) : ∃ x, s.text c = some x :=
  h.text_of_mem (mem_pairs_of_find? hc)

theorem nodup (h : s.IsSection n) : ((s.value n).pairs.map Prod.fst).Nodup := by
  obtain ⟨fields, hv, hkeys, -⟩ := h
  rw [hv]
  exact hkeys

theorem defined (h : s.IsSection n) : s.Defined n := by
  obtain ⟨fields, hv, -⟩ := h
  apply Defined.held
  rw [hv]
  rfl

theorem definedPairs_eq (h : s.IsSection n) : s.definedPairs n = (s.value n).pairs := by
  apply NodeStore.definedPairs_eq
  intro p hp
  obtain ⟨x, hx⟩ := h.text_of_mem hp
  exact defined_of_text hx

end IsSection

/-- A node as it is loaded: its value, and the values under its keys, are there by themselves. -/
structure Settled (s : NodeStore) (n : NodeId) : Prop where
  held : (s.value n).held = true
  pairs : ∀ p ∈ (s.value n).pairs, (s.value p.2).held = true

theorem IsSection.settled (h : s.IsSection n) : s.Settled n := by
  refine ⟨?_, fun p hp => ?_⟩
  · obtain ⟨fields, hv, -⟩ := h
    rw [hv]
    rfl
  · obtain ⟨x, hx⟩ := h.text_of_mem hp
    rw [text_eq_some_iff.1 hx]
    rfl

/-- No path leads through a scalar. -/
theorem nested_of_text {x name : String} (h : s.text n = some x) : s.nested (some n) name = none := by
  rw [nested_some, find?, text_eq_some_iff.1 h]
  rfl

/-! ## Stores that agree -/

/-- Every node that a node owns has the same value in both stores. -/
def AgreeOn (s t : NodeStore) (n : NodeId) : Prop := ∀ i, s.Owns n i → t.value i = s.value i

namespace AgreeOn

theorem value_eq (h : s.AgreeOn t n) : t.value n = s.value n := h n owns_self

theorem owns_iff (h : s.AgreeOn t n) {i : NodeId} : t.Owns n i ↔ s.Owns n i := by
  rw [Owns, Owns, h.value_eq]

theorem find?_eq (h : s.AgreeOn t n) (key : String) : t.find? n key = s.find? n key := by
  rw [find?, find?, h.value_eq]

theorem content_eq (h : s.AgreeOn t n) : t.content n = s.content n := by
  apply SharedMap.ext
  · funext a b
    simp only [content, h.find?_eq]
  · funext key
    simp only [content, h.find?_eq]
    cases hc : s.find? n key with
    | none => rfl
    | some c => simp only [Option.bind_some, text, h c (owns_of_find? hc)]

theorem isSection (h : s.AgreeOn t n) (hn : s.IsSection n) : t.IsSection n := by
  obtain ⟨fields, hv, hkeys, hscalar⟩ := hn
  refine ⟨fields, h.value_eq.trans hv, hkeys, fun f hf => ?_⟩
  obtain ⟨x, hx⟩ := hscalar f hf
  have howns : s.Owns n f.2 := Or.inr (by rw [hv]; exact List.mem_map_of_mem hf)
  exact ⟨x, (h f.2 howns).trans hx⟩

end AgreeOn

/-- The second store has the nodes of the first, with their values, and maybe more. -/
structure Extends (s t : NodeStore) : Prop where
  size_le : s.size ≤ t.size
  value_eq : ∀ i, i < s.size → t.value i = s.value i

namespace Extends

theorem refl (s : NodeStore) : s.Extends s := ⟨Nat.le_refl s.size, fun _ _ => rfl⟩

theorem trans {u : NodeStore} (h₁ : s.Extends t) (h₂ : t.Extends u) : s.Extends u where
  size_le := Nat.le_trans h₁.size_le h₂.size_le
  value_eq i hi := by
    rw [h₂.value_eq i (Nat.lt_of_lt_of_le hi h₁.size_le), h₁.value_eq i hi]

theorem agreeOn (h : s.Extends t) (hs : s.Closed) (hn : n < s.size) : s.AgreeOn t n :=
  fun i hi => h.value_eq i (hs.owns_lt hn hi)

theorem defined_iff (h : s.Extends t) (hs : s.Closed) (hn : n < s.size) :
    t.Defined n ↔ s.Defined n := by
  constructor
  · intro hdef
    induction hdef with
    | held hheld =>
        rw [h.value_eq _ hn] at hheld
        exact .held hheld
    | under hp hdef ih =>
        rw [h.value_eq _ hn] at hp
        exact .under hp (ih (hs.pair_lt hn hp))
  · intro hdef
    induction hdef with
    | held hheld => exact .held (by rwa [h.value_eq _ hn])
    | under hp hdef ih => exact .under (by rwa [h.value_eq _ hn]) (ih (hs.pair_lt hn hp))

theorem nested_eq (h : s.Extends t) (m : Option NodeId)
    (hm : ∀ i, m = some i → i < s.size) (name : String) : t.nested m name = s.nested m name := by
  cases m with
  | none => rfl
  | some n => rw [nested_some, nested_some, find?, find?, h.value_eq n (hm n rfl)]

theorem settled (h : s.Extends t) (hs : s.Closed) (hn : n < s.size) (hsettled : s.Settled n) :
    t.Settled n := by
  have hroot := h.value_eq n hn
  refine ⟨by rw [hroot]; exact hsettled.held, fun p hp => ?_⟩
  rw [hroot] at hp
  rw [h.value_eq p.2 (hs.pair_lt hn hp)]
  exact hsettled.pairs p hp

end Extends

/-- A lookup gives a node in use. -/
theorem Closed.nested_lt (hs : s.Closed) {m : Option NodeId} (hm : ∀ i, m = some i → i < s.size)
    {name : String} : ∀ i, s.nested m name = some i → i < s.size := by
  intro i hi
  cases m with
  | none => cases hi
  | some n => exact hs n (hm n rfl) i (mem_refs_of_find? hi)

theorem Extends.walk_eq (h : s.Extends t) (hs : s.Closed) (m : Option NodeId)
    (hm : ∀ i, m = some i → i < s.size) (path : List String) : t.walk m path = s.walk m path := by
  induction path generalizing m with
  | nil => rfl
  | cons name path ih =>
      rw [walk_cons, walk_cons, h.nested_eq m hm]
      exact ih _ (hs.nested_lt hm)

/-! ## Assignments -/

/-- A node gets a value, and no other node in use is changed. -/
structure Assigns (s t : NodeStore) (n : NodeId) (v : NodeValue) : Prop where
  size_le : s.size ≤ t.size
  value_self : t.value n = v
  value_eq : ∀ i, i < s.size → i ≠ n → t.value i = s.value i

theorem Assigns.of_extends {u : NodeStore} {v : NodeValue} (hext : s.Extends t)
    (h : t.Assigns u n v) : s.Assigns u n v where
  size_le := Nat.le_trans hext.size_le h.size_le
  value_self := h.value_self
  value_eq i hi hin := by
    rw [h.value_eq i (Nat.lt_of_lt_of_le hi hext.size_le) hin, hext.value_eq i hi]

/-- The store with another value for a node. -/
def set (s : NodeStore) (n : NodeId) (v : NodeValue) : NodeStore :=
  { s with value := fun i => if i = n then v else s.value i }

theorem assigns_set {v : NodeValue} : s.Assigns (s.set n v) n v :=
  ⟨Nat.le_refl s.size, if_pos rfl, fun _ _ hi => if_neg hi⟩

/-! ## Copies -/

/-- The nodes below a node that are defined, and the node itself. -/
inductive Reaches (s : NodeStore) (n : NodeId) : NodeId → Prop where
  | refl : Reaches s n n
  | step {i c : NodeId} (hi : Reaches s n i) (hc : c ∈ (s.value i).refs) (hdef : s.Defined c) :
      Reaches s n c

/-- The second store has a new node for each node that a node reaches: it has the value of the node,
with the copies in place of the nodes that this refers to. The copies of different nodes are
different. -/
structure Clones (s t : NodeStore) (n : NodeId) (copy : NodeId → NodeId) : Prop where
  extended : s.Extends t
  fresh : ∀ i, s.Reaches n i → s.size ≤ copy i ∧ copy i < t.size
  injective : ∀ i j, s.Reaches n i → s.Reaches n j → copy i = copy j → i = j
  null : ∀ i, s.Reaches n i → s.value i = .null → t.value (copy i) = .null
  scalar : ∀ i x, s.Reaches n i → s.value i = .scalar x → t.value (copy i) = .scalar x
  sequence : ∀ i items, s.Reaches n i → s.value i = .sequence items →
    (∀ e ∈ items, s.Defined e) → t.value (copy i) = .sequence (items.map copy)
  map : ∀ i held pairs, s.Reaches n i → s.value i = .map held pairs →
    ∃ copies, t.value (copy i) = .map true copies ∧
      copies.Perm ((s.definedPairs i).map fun p => (p.1, copy p.2))

/-- The fields of a section are reached. -/
theorem IsSection.reaches_of_find? (hn : s.IsSection n) {key : String} {c : NodeId}
    (hc : s.find? n key = some c) : s.Reaches n c := by
  obtain ⟨x, hx⟩ := hn.text_of_find? hc
  exact .step .refl (mem_refs_of_find? hc) (defined_of_text hx)

namespace Clones

variable {copy : NodeId → NodeId}

/-- A key that the copy of a map has leads to the copy of what it leads to in the map. -/
theorem exists_pairs (h : s.Clones t n copy) {i : NodeId} (hi : s.Reaches n i) {held : Bool}
    {pairs : List (String × NodeId)} (hv : s.value i = .map held pairs)
    (hkeys : (pairs.map Prod.fst).Nodup) :
    ∃ copies, t.value (copy i) = .map true copies ∧ (copies.map Prod.fst).Nodup ∧
      ∀ key, copies.lookup key = ((s.definedPairs i).lookup key).map copy := by
  obtain ⟨copies, hcopies, hperm⟩ := h.map i held pairs hi hv
  have hnodup : (((s.definedPairs i).map fun p => (p.1, copy p.2)).map Prod.fst).Nodup := by
    have hfst : ((s.definedPairs i).map fun p => (p.1, copy p.2)).map Prod.fst =
        (s.definedPairs i).map Prod.fst := by
      rw [List.map_map]
      rfl
    rw [hfst, definedPairs, hv]
    exact hkeys.sublist (List.filter_sublist.map Prod.fst)
  refine ⟨copies, hcopies, PairList.nodup_perm hnodup hperm, fun key => ?_⟩
  rw [PairList.lookup_perm hnodup hperm, PairList.lookup_map]

section Section

variable (h : s.Clones t n copy) (hn : s.IsSection n)

include h hn

theorem find?_section (key : String) : t.find? (copy n) key = (s.find? n key).map copy := by
  obtain ⟨fields, hv, hkeys, -⟩ := id hn
  obtain ⟨copies, hcopies, -, hlookup⟩ := h.exists_pairs .refl hv hkeys
  rw [find?_of_map hcopies, hlookup, hn.definedPairs_eq]
  rfl

theorem text_section {key : String} {c : NodeId} (hc : s.find? n key = some c) :
    t.text (copy c) = s.text c := by
  obtain ⟨x, hx⟩ := hn.text_of_find? hc
  rw [hx, text_eq_some_iff]
  exact h.scalar c x (hn.reaches_of_find? hc) (text_eq_some_iff.1 hx)

/-- A copy says what the original says, and shares cells where the original does. -/
theorem content_section : t.content (copy n) = s.content n := by
  apply SharedMap.ext
  · funext a b
    have hiff : t.find? (copy n) a = t.find? (copy n) b ∧ t.find? (copy n) a ≠ none ↔
        s.find? n a = s.find? n b ∧ s.find? n a ≠ none := by
      rw [h.find?_section hn, h.find?_section hn]
      cases ha : s.find? n a with
      | none => simp
      | some c =>
          cases hb : s.find? n b with
          | none => simp
          | some d =>
              have hcd : copy c = copy d ↔ c = d :=
                ⟨h.injective c d (hn.reaches_of_find? ha) (hn.reaches_of_find? hb),
                  congrArg copy⟩
              simp [hcd]
    exact propext (or_congr_right hiff)
  · funext key
    rw [get?_content, get?_content, h.find?_section hn]
    cases hc : s.find? n key with
    | none => rfl
    | some c => exact h.text_section hn hc

theorem isSection : t.IsSection (copy n) := by
  obtain ⟨fields, hv, hkeys, -⟩ := id hn
  obtain ⟨copies, hcopies, hnodup, -⟩ := h.exists_pairs .refl hv hkeys
  refine ⟨copies, hcopies, hnodup, fun p hp => ?_⟩
  have hfind : t.find? (copy n) p.1 = some p.2 := by
    rw [find?_of_map hcopies]
    exact PairList.lookup_of_mem hnodup hp
  rw [h.find?_section hn, Option.map_eq_some_iff] at hfind
  obtain ⟨c, hc, hcp⟩ := hfind
  obtain ⟨x, hx⟩ := hn.text_of_find? hc
  rw [← hcp]
  exact ⟨x, text_eq_some_iff.1 ((h.text_section hn hc).trans hx)⟩

/-- The copy of a section owns new nodes only. -/
theorem owns_section {i : NodeId} (hi : t.Owns (copy n) i) : s.size ≤ i ∧ i < t.size := by
  rcases hi with rfl | hi
  · exact h.fresh n .refl
  · obtain ⟨fields, hv, hkeys, -⟩ := id hn
    obtain ⟨copies, hcopies, hnodup, -⟩ := h.exists_pairs .refl hv hkeys
    rw [hcopies] at hi
    obtain ⟨p, hp, rfl⟩ := List.mem_map.1 hi
    have hfind : t.find? (copy n) p.1 = some p.2 := by
      rw [find?_of_map hcopies]
      exact PairList.lookup_of_mem hnodup hp
    rw [h.find?_section hn, Option.map_eq_some_iff] at hfind
    obtain ⟨c, hc, hcp⟩ := hfind
    rw [← hcp]
    exact h.fresh c (hn.reaches_of_find? hc)

end Section

end Clones

end NodeStore

end JayBeams.Yaml
