import JayBeams.Library.OverlayTree
import JayBeams.Yaml.NodeLibrary
import Mathlib.Data.Set.Insert

/-!
# Nodes that form a tree

`IsTree s σ t n F` says that the nodes `F` of a store form a tree with the root `n`, that no node is
in it twice, and that the tree says `t`. A value that is not defined says nothing, and neither does
a map whose keys were asked for while none of its values is defined. The shape `σ` gives the kind of
node that may stand at every path. It binds the nodes that are not defined yet too: a map of them
can not become a sequence later.

A tree depends on the values of its nodes only (`IsTree.frame`), a library reads at every path what
the tree says (`IsTree.labelAt_eq`), and the copy of a tree says the same (`IsTree.clone`).
-/

set_option autoImplicit false

namespace JayBeams.Yaml

open Containers OverlayTree

/-- A step of a path, by the key of a map or the index of a sequence. -/
inductive Step where
  | key (name : String)
  | index (i : Nat)
  deriving DecidableEq, Repr

/-- What a tree of nodes says. -/
abbrev Tree := OverlayTree Step String

/-- The kind of node that may stand at each path. -/
abbrev Shape := List Step → Option Branching

/-- The shape below a step. -/
def Shape.below (σ : Shape) (c : Step) : Shape := fun p => σ (c :: p)

namespace NodeValue

/-- The kind of a value that can have children. -/
def branching : NodeValue → Option Branching
  | sequence _ => some .list
  | map _ _ => some .record
  | _ => none

/-- The node under a key of a map or an index of a sequence. -/
def child : NodeValue → Step → Option NodeId
  | sequence items, .index i => items[i]?
  | map _ pairs, .key name => pairs.lookup name
  | _, _ => none

variable {v : NodeValue}

theorem exists_pairs (h : v.branching = some .record) : ∃ held pairs, v = .map held pairs := by
  cases v with
  | map held pairs => exact ⟨held, pairs, rfl⟩
  | sequence items => cases h
  | undefined => cases h
  | null => cases h
  | scalar x => cases h

theorem exists_items (h : v.branching = some .list) : ∃ items, v = .sequence items := by
  cases v with
  | sequence items => exact ⟨items, rfl⟩
  | map held pairs => cases h
  | undefined => cases h
  | null => cases h
  | scalar x => cases h

theorem child_mem_refs {c : Step} {e : NodeId} (h : v.child c = some e) : e ∈ v.refs := by
  cases v with
  | sequence items =>
      cases c with
      | key name => cases h
      | index i => exact List.mem_of_getElem? h
  | map held pairs =>
      cases c with
      | key name => exact List.mem_map_of_mem (PairList.mem_of_lookup h)
      | index i => cases h
  | undefined => cases h
  | null => cases h
  | scalar x => cases h

/-- A pair of a map is a child under its key. -/
theorem child_of_mem_pairs (hkeys : (v.pairs.map Prod.fst).Nodup) {p : String × NodeId}
    (hp : p ∈ v.pairs) : v.child (.key p.1) = some p.2 := by
  cases v with
  | map held pairs => exact PairList.lookup_of_mem hkeys hp
  | sequence items => cases hp
  | undefined => cases hp
  | null => cases hp
  | scalar x => cases hp

/-- A child of a map is a pair with its key. -/
theorem mem_pairs_of_child (hk : v.branching = some .record) {c : Step} {e : NodeId}
    (h : v.child c = some e) : ∃ name, c = .key name ∧ (name, e) ∈ v.pairs := by
  obtain ⟨held, pairs, rfl⟩ := exists_pairs hk
  cases c with
  | key name => exact ⟨name, rfl, PairList.mem_of_lookup h⟩
  | index i => cases h

/-- A node that a value refers to is one of its children. -/
theorem exists_child (hkeys : (v.pairs.map Prod.fst).Nodup) {e : NodeId} (he : e ∈ v.refs) :
    ∃ c, v.child c = some e := by
  cases v with
  | sequence items =>
      obtain ⟨i, hi⟩ := List.mem_iff_getElem?.1 he
      exact ⟨.index i, hi⟩
  | map held pairs =>
      obtain ⟨p, hp, rfl⟩ := List.mem_map.1 he
      exact ⟨.key p.1, child_of_mem_pairs hkeys hp⟩
  | undefined => cases he
  | null => cases he
  | scalar x => cases he

/-- An appended item is one child more. -/
theorem child_append (items : List NodeId) (e : NodeId) (c : Step) :
    (sequence (items ++ [e])).child c =
      if c = .index items.length then some e else (sequence items).child c := by
  cases c with
  | key name => rfl
  | index i =>
      show (items ++ [e])[i]? = _
      rcases Nat.lt_trichotomy i items.length with hi | hi | hi
      · rw [List.getElem?_append_left hi, if_neg fun h => Nat.ne_of_lt hi (Step.index.inj h)]
        rfl
      · rw [hi, List.getElem?_concat_length, if_pos rfl]
      · have hi' : (items ++ [e]).length ≤ i := by
          rw [List.length_append]
          exact hi
        rw [List.getElem?_eq_none hi', if_neg fun h => Nat.ne_of_gt hi (Step.index.inj h)]
        exact (List.getElem?_eq_none (Nat.le_of_lt hi)).symm

end NodeValue

/-! ## Reading at the end of a path -/

namespace NodeLibrary

variable (L : NodeLibrary) (m : L.Memory)

/-- What a node is, when it is defined. -/
def label? (n : NodeId) : Option (Label String) :=
  match L.type m n with
  | .scalar => some (.leaf (L.scalar m n))
  | .sequence => some (.branch .list)
  | .map => some (.branch .record)
  | .null => none
  | .undefined => none

/-- The node under a key of a map or an index of a sequence. -/
def child? (n : NodeId) : Step → Option NodeId
  | .key name => if L.type m n = .map then L.find? m n name else none
  | .index i => if L.type m n = .sequence then (L.items m n)[i]? else none

/-- What the node at the end of a path is, when it is defined. -/
def labelAt : NodeId → List Step → Option (Label String)
  | n, [] => L.label? m n
  | n, c :: p => (L.child? m n c).bind fun e => labelAt e p

/-- The scalar at the end of a path. -/
def scalarAt (n : NodeId) (p : List Step) : Option String := (L.labelAt m n p).bind Label.leaf?

variable {L m} {n : NodeId}

theorem child?_of_undefined (h : L.type m n = .undefined) (c : Step) : L.child? m n c = none := by
  cases c with
  | key name => rw [child?, h, if_neg nofun]
  | index i => rw [child?, h, if_neg nofun]

theorem labelAt_of_undefined (h : L.type m n = .undefined) (p : List Step) :
    L.labelAt m n p = none := by
  cases p with
  | nil => rw [labelAt, label?, h]
  | cons c p => rw [labelAt, child?_of_undefined h, Option.bind_none]

theorem labelAt_of_scalar (hn : n < (L.nodes m).size) {x : String}
    (h : (L.nodes m).value n = .scalar x) (p : List Step) :
    L.labelAt m n p = (OverlayTree.leaf x : Tree).labelAt p := by
  have htype := type_of_scalar hn h
  cases p with
  | nil => rw [labelAt, label?, htype, L.scalar_eq m n x hn h]; rfl
  | cons c p =>
      have hchild : L.child? m n c = none := by
        cases c with
        | key name => rw [child?, htype, if_neg nofun]
        | index i => rw [child?, htype, if_neg nofun]
      rw [labelAt, hchild, Option.bind_none]
      exact (labelAt_absent p).symm

/-- A map that is defined has the children of its value. -/
theorem child?_of_map (hn : n < (L.nodes m).size) (hdef : (L.nodes m).Defined n)
    (hk : ((L.nodes m).value n).branching = some .record) (c : Step) :
    L.child? m n c = ((L.nodes m).value n).child c := by
  obtain ⟨held, pairs, hv⟩ := NodeValue.exists_pairs hk
  have htype : L.type m n = .map := by rw [L.type_of_defined m n hn hdef, hv]; rfl
  rw [hv]
  cases c with
  | key name =>
      rw [child?, if_pos htype, L.find?_eq m n held pairs name hn hv]
      rfl
  | index i =>
      rw [child?, htype, if_neg nofun]
      rfl

/-- So does a sequence whose items are defined. -/
theorem child?_of_sequence (hn : n < (L.nodes m).size) {items : List NodeId}
    (hv : (L.nodes m).value n = .sequence items) (hdef : ∀ e ∈ items, (L.nodes m).Defined e)
    (c : Step) : L.child? m n c = ((L.nodes m).value n).child c := by
  have htype : L.type m n = .sequence := by rw [type_of_held hn (by rw [hv]; rfl), hv]; rfl
  cases c with
  | key name =>
      rw [child?, htype, if_neg nofun, hv]
      rfl
  | index i =>
      rw [child?, if_pos htype, L.items_eq m n items hn hv hdef, hv]
      rfl

end NodeLibrary

/-! ## Trees -/

/-- A node and the nodes below its children. -/
def footprint (n : NodeId) (G : Step → Set NodeId) : Set NodeId := {i | i = n ∨ ∃ c, i ∈ G c}

/-- A node has children that share no node, with trees `d` on the nodes `G`. -/
structure HasChildren (s : NodeStore) (n : NodeId) (k : Branching) (d : Step → Tree)
    (G : Step → Set NodeId) : Prop where
  branching : (s.value n).branching = some k
  nodup : ((s.value n).pairs.map Prod.fst).Nodup
  missing : ∀ c, (s.value n).child c = none → d c = .absent ∧ G c = ∅
  items : k = .list → ∀ c e, (s.value n).child c = some e → d c ≠ .absent
  disjoint : ∀ c c', c ≠ c' → ∀ i ∈ G c, i ∉ G c'
  self : ∀ c, n ∉ G c

/-- The nodes `F` are a tree of shape `σ` with the root `n`, and it says `t`. -/
inductive IsTree (s : NodeStore) : Shape → Tree → NodeId → Set NodeId → Prop where
  | undefined {σ : Shape} {n : NodeId} (hv : s.value n = .undefined) : IsTree s σ .absent n {n}
  | scalar {σ : Shape} {n : NodeId} {x : String} (hv : s.value n = .scalar x) (hσ : σ [] = none) :
      IsTree s σ (.leaf x) n {n}
  | branch {σ : Shape} {n : NodeId} {k : Branching} {d : Step → Tree} {G : Step → Set NodeId}
      {t : Tree} {F : Set NodeId} (hn : HasChildren s n k d G) (hσ : σ [] = some k)
      (hchild : ∀ c e, (s.value n).child c = some e → IsTree s (σ.below c) (d c) e (G c))
      (ht : t = .bundle k ((s.value n).held = true) d) (hF : F = footprint n G) :
      IsTree s σ t n F

variable {s v w : NodeStore} {σ : Shape} {t u : Tree} {n m : NodeId} {F F' F'' H : Set NodeId}
  {k : Branching} {d : Step → Tree} {G : Step → Set NodeId}

theorem HasChildren.congr (h : HasChildren s n k d G) (hv : v.value n = s.value n) :
    HasChildren v n k d G where
  branching := by rw [hv]; exact h.branching
  nodup := by rw [hv]; exact h.nodup
  missing := by rw [hv]; exact h.missing
  items := by rw [hv]; exact h.items
  disjoint := h.disjoint
  self := h.self

/-- A node of the shape has children, and they are trees. -/
structure Branches (s : NodeStore) (σ : Shape) (n : NodeId) (k : Branching) (d : Step → Tree)
    (G : Step → Set NodeId) : Prop extends HasChildren s n k d G where
  shape : σ [] = some k
  tree : ∀ c e, (s.value n).child c = some e → IsTree s (σ.below c) (d c) e (G c)

theorem not_defined_of_undefined (h : s.value n = .undefined) : ¬ s.Defined n := by
  intro hdef
  cases hdef with
  | held hheld => simp [h, NodeValue.held] at hheld
  | under hp _ => simp [h, NodeValue.pairs] at hp

/-- A branch is defined when it is there by itself or one of its children is defined. -/
theorem HasChildren.defined_iff (h : HasChildren s n k d G) :
    s.Defined n ↔ (s.value n).held = true ∨ ∃ c e, (s.value n).child c = some e ∧ s.Defined e := by
  constructor
  · intro hdef
    cases hdef with
    | held hheld => exact Or.inl hheld
    | @under _ p hp hdef =>
        exact Or.inr ⟨.key p.1, p.2, NodeValue.child_of_mem_pairs h.nodup hp, hdef⟩
  · rintro (hheld | ⟨c, e, hc, hdef⟩)
    · exact .held hheld
    · cases k with
      | list =>
          -- A sequence is there by itself.
          obtain ⟨items, hv⟩ := NodeValue.exists_items h.branching
          exact .held (by rw [hv]; rfl)
      | record =>
          obtain ⟨name, -, hp⟩ := NodeValue.mem_pairs_of_child h.branching hc
          exact .under hp hdef

namespace IsTree

theorem root_mem (h : IsTree s σ t n F) : n ∈ F := by
  cases h with
  | undefined hv => rfl
  | scalar hv hσ => rfl
  | branch hn hσ hchild ht hF => exact hF ▸ Or.inl rfl

/-- A tree only depends on the values of its nodes. -/
theorem frame (h : IsTree s σ t n F) (hv : ∀ i ∈ F, v.value i = s.value i) :
    IsTree v σ t n F := by
  induction h with
  | undefined h => exact .undefined ((hv _ rfl).trans h)
  | scalar h hσ => exact .scalar ((hv _ rfl).trans h) hσ
  | branch hn hσ hchild ht hF ih =>
      subst hF
      have hroot := hv _ (Or.inl rfl)
      -- The children of the root are the same, and each one is framed by its own nodes.
      refine .branch (hn.congr hroot) hσ (fun c e hc => ?_) (by rw [hroot]; exact ht) rfl
      rw [hroot] at hc
      exact ih c e hc fun i hi => hv i (Or.inr ⟨c, hi⟩)

/-- A root is defined exactly when its tree is there. -/
theorem defined_iff (h : IsTree s σ t n F) : s.Defined n ↔ t ≠ .absent := by
  induction h with
  | undefined hv =>
      constructor
      · exact fun hdef => absurd hdef (not_defined_of_undefined hv)
      · exact fun hne => absurd rfl hne
  | scalar hv hσ =>
      constructor
      · exact fun _ => nofun
      · exact fun _ => .held (by rw [hv]; rfl)
  | @branch σ n k d G t F hn hσ hchild ht hF ih =>
      rw [ht, bundle_ne_absent_iff, hn.defined_iff]
      apply or_congr_right
      constructor
      · rintro ⟨c, e, hc, hdef⟩
        exact ⟨c, (ih c e hc).1 hdef⟩
      · rintro ⟨c, hne⟩
        cases hc : (s.value n).child c with
        | none => exact absurd (hn.missing c hc).1 hne
        | some e => exact ⟨c, e, hc, (ih c e hc).2 hne⟩

end IsTree

namespace Branches

variable (h : Branches s σ n k d G)

include h

theorem isTree : IsTree s σ (bundle k ((s.value n).held = true) d) n (footprint n G) :=
  .branch h.toHasChildren h.shape h.tree rfl rfl

theorem defined_iff : s.Defined n ↔ (s.value n).held = true ∨ ∃ c, d c ≠ .absent := by
  rw [h.isTree.defined_iff, bundle_ne_absent_iff]

/-- A child is defined exactly when its tree is there. -/
theorem child_defined_iff (c : Step) :
    (∃ e, (s.value n).child c = some e ∧ s.Defined e) ↔ d c ≠ .absent := by
  constructor
  · rintro ⟨e, hc, hdef⟩
    exact (h.tree c e hc).defined_iff.1 hdef
  · intro hne
    cases hc : (s.value n).child c with
    | none => exact absurd (h.missing c hc).1 hne
    | some e => exact ⟨e, rfl, (h.tree c e hc).defined_iff.2 hne⟩

end Branches

/-- The items of a sequence are defined. -/
theorem Branches.items_defined (h : Branches s σ n .list d G) {items : List NodeId}
    (hv : s.value n = .sequence items) : ∀ e ∈ items, s.Defined e := by
  intro e he
  obtain ⟨i, hi⟩ := List.mem_iff_getElem?.1 he
  have hc : (s.value n).child (.index i) = some e := by
    rw [hv]
    exact hi
  exact (h.tree _ e hc).defined_iff.2 (h.items rfl _ e hc)

/-- A library reads the children of a branch that is defined. -/
theorem Branches.child?_eq {L : NodeLibrary} {m : L.Memory} (h : Branches (L.nodes m) σ n k d G)
    (hn : n < (L.nodes m).size) (hdef : (L.nodes m).Defined n) (c : Step) :
    L.child? m n c = ((L.nodes m).value n).child c := by
  cases k with
  | record => exact NodeLibrary.child?_of_map hn hdef h.branching c
  | list =>
      obtain ⟨items, hv⟩ := NodeValue.exists_items h.branching
      exact NodeLibrary.child?_of_sequence hn hv (h.items_defined hv) c

/-- A library reads the kind of a branch that is defined. -/
theorem Branches.label?_eq {L : NodeLibrary} {m : L.Memory} (h : Branches (L.nodes m) σ n k d G)
    (hn : n < (L.nodes m).size) (hdef : (L.nodes m).Defined n) :
    L.label? m n = some (.branch k) := by
  rw [NodeLibrary.label?, L.type_of_defined m n hn hdef]
  cases k with
  | record =>
      obtain ⟨held, pairs, hv⟩ := NodeValue.exists_pairs h.branching
      rw [hv]
      rfl
  | list =>
      obtain ⟨items, hv⟩ := NodeValue.exists_items h.branching
      rw [hv]
      rfl

namespace IsTree

/-- A library reads at every path what the tree says. -/
theorem labelAt_eq {L : NodeLibrary} {m : L.Memory} (h : IsTree (L.nodes m) σ t n F)
    (hlt : ∀ i ∈ F, i < (L.nodes m).size) (p : List Step) : L.labelAt m n p = t.labelAt p := by
  induction h generalizing p with
  | @undefined σ n hv =>
      have htype := L.type_of_not_defined m n (hlt n rfl) (not_defined_of_undefined hv)
      rw [NodeLibrary.labelAt_of_undefined htype, labelAt_absent]
  | @scalar σ n x hv hσ => exact NodeLibrary.labelAt_of_scalar (hlt n rfl) hv p
  | @branch σ n k d G t F hn hσ hchild ht hF ih =>
      subst hF
      have hlt' : n < (L.nodes m).size := hlt n (Or.inl rfl)
      have hbranches : Branches (L.nodes m) σ n k d G := ⟨hn, hσ, hchild⟩
      by_cases hdef : (L.nodes m).Defined n
      · rw [ht, bundle, if_pos (hbranches.defined_iff.1 hdef)]
        cases p with
        | nil => exact hbranches.label?_eq hlt' hdef
        | cons c p =>
            rw [NodeLibrary.labelAt, hbranches.child?_eq hlt' hdef]
            cases hc : ((L.nodes m).value n).child c with
            | some e => exact ih c e hc (fun i hi => hlt i (Or.inr ⟨c, hi⟩)) p
            | none =>
                show none = (d c).labelAt p
                rw [(hn.missing c hc).1, labelAt_absent]
      -- A root that is not defined says nothing.
      · have htype := L.type_of_not_defined m n hlt' hdef
        rw [NodeLibrary.labelAt_of_undefined htype, ht, bundle,
          if_neg (mt hbranches.defined_iff.2 hdef), labelAt_absent]

/-- A path of a tree holds a node of the kind that the shape gives it. -/
theorem kind_labelAt (h : IsTree s σ t n F) {p : List Step} {l : Label String}
    (hl : t.labelAt p = some l) : l.kind = σ p := by
  induction h generalizing p with
  | undefined hv =>
      rw [labelAt_absent] at hl
      cases hl
  | scalar hv hσ =>
      cases p with
      | nil =>
          cases hl
          exact hσ.symm
      | cons c p =>
          rw [OverlayTree.labelAt, child_leaf, labelAt_absent] at hl
          cases hl
  | @branch σ n k d G t F hn hσ hchild ht hF ih =>
      rw [ht] at hl
      cases p with
      | nil =>
          rw [bundle] at hl
          split at hl
          · cases hl
            exact hσ.symm
          · cases hl
      | cons c p =>
          rw [OverlayTree.labelAt, child_bundle] at hl
          cases hc : (s.value n).child c with
          | some e => exact ih c e hc hl
          | none =>
              rw [(hn.missing c hc).1, labelAt_absent] at hl
              cases hl

end IsTree

/-! ## Copies of trees -/

/-- The children of the copy of a node are the copies of its children that are defined. -/
theorem HasChildren.child_clone (h : HasChildren s n k d G)
    (htree : ∀ c e, (s.value n).child c = some e → IsTree s (σ.below c) (d c) e (G c))
    (hσ : σ [] = some k) {copy : NodeId → NodeId} (hcopy : s.Clones v m copy)
    (hreach : s.Reaches m n) :
    (v.value (copy n)).branching = some k ∧ (v.value (copy n)).held = true ∧
      ((v.value (copy n)).pairs.map Prod.fst).Nodup ∧
      ∀ c e, (v.value (copy n)).child c = some e ↔
        ∃ i, (s.value n).child c = some i ∧ s.Defined i ∧ copy i = e := by
  have hbranches : Branches s σ n k d G := ⟨h, hσ, htree⟩
  cases k with
  | record =>
      obtain ⟨held, pairs, hv⟩ := NodeValue.exists_pairs h.branching
      have hkeys := h.nodup
      rw [hv] at hkeys
      obtain ⟨copies, hcopies, hnodup, hlookup⟩ := hcopy.exists_pairs hreach hv hkeys
      rw [hcopies]
      refine ⟨rfl, rfl, hnodup, fun c e => ?_⟩
      cases c with
      | index i => simp [NodeValue.child, hv]
      | key name =>
          show copies.lookup name = some e ↔ _
          rw [hlookup, NodeStore.lookup_definedPairs h.nodup, NodeStore.find?_of_map hv, hv]
          simp [Option.map_eq_some_iff, Option.filter_eq_some_iff, NodeValue.child, and_assoc]
  | list =>
      obtain ⟨items, hv⟩ := NodeValue.exists_items h.branching
      have hdef := hbranches.items_defined hv
      rw [hcopy.sequence n items hreach hv hdef, hv]
      refine ⟨rfl, rfl, List.nodup_nil, fun c e => ?_⟩
      cases c with
      | key name => simp [NodeValue.child]
      | index i =>
          show (items.map copy)[i]? = some e ↔ _
          rw [List.getElem?_map, Option.map_eq_some_iff]
          apply exists_congr
          intro j
          constructor
          · rintro ⟨hj, heq⟩
            exact ⟨hj, hdef j (List.mem_of_getElem? hj), heq⟩
          · rintro ⟨hj, -, heq⟩
            exact ⟨hj, heq⟩

/-- The copy of a node has the copies of its children, which share no node as the children do not:
different nodes have different copies. -/
theorem Branches.hasChildren_clone (h : Branches s σ n k d G) {copy : NodeId → NodeId}
    (hcopy : s.Clones v m copy) (hreach : s.Reaches m n) {H : Step → Set NodeId}
    (habsent : ∀ c, d c = .absent → H c = ∅)
    (hH : ∀ c, ∀ j ∈ H c, ∃ i ∈ G c, s.Reaches m i ∧ copy i = j) :
    HasChildren v (copy n) k d H := by
  obtain ⟨hbranching, -, hnodup, hchildren⟩ := h.child_clone h.tree h.shape hcopy hreach
  refine ⟨hbranching, hnodup, fun c hc => ?_, fun hk c e hc => ?_, ?_, ?_⟩
  · have hd : d c = .absent := by
      by_contra hne
      obtain ⟨i, hi, hidef⟩ := (h.child_defined_iff c).2 hne
      have hc' := (hchildren c (copy i)).2 ⟨i, hi, hidef, rfl⟩
      rw [hc] at hc'
      cases hc'
    exact ⟨hd, habsent c hd⟩
  · obtain ⟨i, hi, -, -⟩ := (hchildren c e).1 hc
    exact h.items hk c i hi
  · intro c c' hne j hj hj'
    obtain ⟨i, hi, hireach, rfl⟩ := hH c j hj
    obtain ⟨i', hi', hireach', heq⟩ := hH c' _ hj'
    cases hcopy.injective i' i hireach' hireach heq
    exact h.disjoint c c' hne _ hi hi'
  · intro c hc
    obtain ⟨i, hi, hireach, heq⟩ := hH c _ hc
    cases hcopy.injective i n hireach hreach heq
    exact h.self c hi

namespace IsTree

/-- The copy of a tree is a tree of new nodes that says the same. -/
theorem clone (h : IsTree s σ t n F) {copy : NodeId → NodeId} (hcopy : s.Clones v m copy)
    (hreach : s.Reaches m n) (hdef : s.Defined n) :
    ∃ F', IsTree v σ t (copy n) F' ∧ ∀ j ∈ F', ∃ i ∈ F, s.Reaches m i ∧ copy i = j := by
  induction h with
  | undefined hv => exact absurd hdef (not_defined_of_undefined hv)
  | @scalar σ n x hv hσ =>
      refine ⟨{copy n}, .scalar (hcopy.scalar n x hreach hv) hσ, ?_⟩
      rintro j rfl
      exact ⟨n, rfl, hreach, rfl⟩
  | @branch σ n k d G t F hn hσ hchild ht hF ih =>
      subst hF
      have hbranches : Branches s σ n k d G := ⟨hn, hσ, hchild⟩
      obtain ⟨-, hheld, -, hchildren⟩ := hn.child_clone hchild hσ hcopy hreach
      -- The copy has the trees of the children that are there.
      have hsub : ∀ c, ∃ H, (d c = .absent → H = ∅) ∧
          (∀ i, (s.value n).child c = some i → s.Defined i →
            IsTree v (σ.below c) (d c) (copy i) H) ∧
          ∀ j ∈ H, ∃ i ∈ G c, s.Reaches m i ∧ copy i = j := by
        intro c
        by_cases hd : d c = .absent
        · refine ⟨∅, fun _ => rfl, fun i hi hidef => ?_, fun j hj => hj.elim⟩
          exact absurd hd ((hchild c i hi).defined_iff.1 hidef)
        · obtain ⟨i, hi, hidef⟩ := (hbranches.child_defined_iff c).2 hd
          have hireach := hreach.step (NodeValue.child_mem_refs hi) hidef
          obtain ⟨H, htree, hH⟩ := ih c i hi hireach hidef
          refine ⟨H, fun h => absurd h hd, fun i' hi' _ => ?_, hH⟩
          cases hi.symm.trans hi'
          exact htree
      choose H habsent htree hH using hsub
      have hn' := hbranches.hasChildren_clone hcopy hreach habsent hH
      refine ⟨footprint (copy n) H, .branch hn' hσ (fun c e hc => ?_) ?_ rfl, ?_⟩
      · obtain ⟨i, hi, hidef, rfl⟩ := (hchildren c e).1 hc
        exact htree c i hi hidef
      · -- Both the original and the copy are there.
        rw [bundle_of_held hheld, ht, bundle, if_pos (hbranches.defined_iff.1 hdef)]
      · rintro j (rfl | ⟨c, hc⟩)
        · exact ⟨n, Or.inl rfl, hreach, rfl⟩
        · obtain ⟨i, hi, hireach, heq⟩ := hH c j hc
          exact ⟨i, Or.inr ⟨c, hi⟩, hireach, heq⟩

/-! ## What a tree is made of -/

/-- A tree whose nodes are all there has every shape that its labels have. -/
theorem reshape (h : IsTree s σ t n F) (hheld : ∀ i ∈ F, (s.value i).held = true) {σ' : Shape}
    (hσ' : ∀ p l, t.labelAt p = some l → σ' p = l.kind) : IsTree s σ' t n F := by
  induction h generalizing σ' with
  | undefined hv =>
      -- An undefined node contradicts the assumption.
      have hroot := hheld _ rfl
      rw [hv] at hroot
      cases hroot
  | scalar hv hσ => exact .scalar hv (hσ' [] _ rfl)
  | branch hn hσ hchild ht hF ih =>
      subst hF
      have hroot := hheld _ (Or.inl rfl)
      -- The root is there, so the tree is a branch and has a label.
      rw [bundle_of_held hroot] at ht
      subst ht
      refine .branch hn (hσ' [] _ rfl) (fun c e hc => ?_) (bundle_of_held hroot).symm rfl
      exact ih c e hc (fun i hi => hheld i (Or.inr ⟨c, hi⟩)) fun p l hl => hσ' (c :: p) l hl

/-- What a tree for a leaf is made of. -/
theorem of_leaf {x : String} (h : IsTree s σ (.leaf x) n F) :
    s.value n = .scalar x ∧ σ [] = none := by
  generalize ht' : OverlayTree.leaf x = t at h
  cases h with
  | undefined hv => cases ht'
  | scalar hv hσ =>
      cases ht'
      exact ⟨hv, hσ⟩
  | @branch _ _ k _ _ _ _ hn hσ hchild ht hF =>
      -- A bundle is never a leaf.
      have hfits : (OverlayTree.leaf x : Tree).Fits k := by
        rw [ht', ht]
        exact fits_bundle
      exact hfits.elim

/-- What a tree for a branch is made of. -/
theorem of_branch {w : Step → Tree} (h : IsTree s σ (.branch k w) n F) :
    ∃ G, Branches s σ n k w G ∧ F = footprint n G := by
  generalize ht' : OverlayTree.branch k w = t at h
  cases h with
  | undefined hv => cases ht'
  | scalar hv hσ => cases ht'
  | @branch _ _ k' d G _ _ hn hσ hchild ht hF =>
      rw [ht] at ht'
      have hfits : (OverlayTree.branch k w : Tree).Fits k' := by
        rw [ht']
        exact fits_bundle
      obtain rfl : k = k' := hfits
      have hd : d = w := by
        funext c
        have hchild : (bundle k ((s.value n).held = true) d).child c = d c := child_bundle c
        rw [← hchild, ← ht']
        rfl
      subst hd
      exact ⟨G, ⟨hn, hσ, hchild⟩, hF⟩

/-- A node where a branch may stand is not defined or has children. -/
theorem of_shape (h : IsTree s σ t n F) (hσ : σ [] = some k) :
    (s.value n = .undefined ∧ t = .absent ∧ F = {n}) ∨
      ∃ G, Branches s σ n k t.child G ∧ F = footprint n G := by
  cases h with
  | undefined hv => exact Or.inl ⟨hv, rfl, rfl⟩
  | scalar hv hσ' =>
      rw [hσ'] at hσ
      cases hσ
  | @branch _ _ k' d G _ _ hn hσ' hchild ht hF =>
      obtain rfl : k' = k := Option.some.inj (hσ'.symm.trans hσ)
      subst ht
      have hd : (bundle k' ((s.value n).held = true) d).child = d := funext child_bundle
      rw [hd]
      exact Or.inr ⟨G, ⟨hn, hσ', hchild⟩, hF⟩

/-- Where a branch may stand, the tree is the bundle of its children. -/
theorem eq_bundle (h : IsTree s σ t n F) (hσ : σ [] = some k) :
    t = bundle k ((s.value n).held = true) t.child := by
  cases h with
  | undefined hv => simp [bundle, hv, NodeValue.held]
  | scalar hv hσ' =>
      rw [hσ'] at hσ
      cases hσ
  | @branch _ _ k' d _ _ _ hn hσ' hchild ht hF =>
      obtain rfl : k' = k := Option.some.inj (hσ'.symm.trans hσ)
      have hd : t.child = d := by
        rw [ht]
        exact funext child_bundle
      rw [hd]
      exact ht

theorem fits (h : IsTree s σ t n F) (hσ : σ [] = some k) : t.Fits k := by
  rw [h.eq_bundle hσ]
  exact fits_bundle

/-- Where a leaf may stand is one node. -/
theorem of_shape_leaf (h : IsTree s σ t n F) (hσ : σ [] = none) : F = {n} := by
  cases h with
  | undefined hv => rfl
  | scalar hv hσ' => rfl
  | branch hn hσ' hchild ht hF =>
      rw [hσ'] at hσ
      cases hσ

end IsTree

end JayBeams.Yaml
