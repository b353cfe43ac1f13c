import JayBeams.Yaml.MergeTrees
import JayBeams.Yaml.StoredNodes
import Mathlib.Data.List.Pairwise

/-!
# The laws of merging documents

A document is a tree of nodes as it is loaded (`IsDocument`). Since `merge_node` overlays one tree on
another, the laws of overlays are laws of `merge_node`, with the nodes of any library: what scalar a
path holds after a merge, that a second merge of the same source changes nothing, and that the order
in which three documents are merged does not matter (`mergeNode_overlays`).

Whether a node of a store is the root of a document of a given shape can be computed
(`NodeStore.fitsShape`).
-/

set_option autoImplicit false

namespace JayBeams.Yaml

open Containers OverlayTree

variable {L : NodeLibrary} {m : L.Memory} {s : NodeStore} {σ : Shape} {t : Tree}
  {F H : Set NodeId}

/-! ## Documents -/

namespace NodeLibrary

variable (L) (m)

/-- The nodes `F` are a tree of scalars, sequences and maps: all of them are in use and there by
themselves, as they are loaded. -/
def IsDocument (n : NodeId) (F : Set NodeId) : Prop :=
  (∃ σ t, IsTree (L.nodes m) σ t n F) ∧
    ∀ i ∈ F, i < (L.nodes m).size ∧ ((L.nodes m).value i).held = true

/-- A path that both documents have holds the same kind of node in both. -/
def Compatible (n n' : NodeId) : Prop :=
  ∀ p l l', L.labelAt m n p = some l → L.labelAt m n' p = some l' → l.kind = l'.kind

variable {L m}

theorem Compatible.refl (n : NodeId) : L.Compatible m n n := by
  intro p l l' hl hl'
  rw [Option.some.inj (hl.symm.trans hl')]

theorem Compatible.symm {n n' : NodeId} (h : L.Compatible m n n') : L.Compatible m n' n :=
  fun p l l' hl hl' => (h p l' l hl' hl).symm

variable (L m) in
/-- The kind of node that some documents have at each path. -/
def commonShape (ns : List NodeId) : Shape :=
  fun p => (ns.findSome? fun n => L.labelAt m n p).bind Label.kind

theorem commonShape_eq {ns : List NodeId} (h : ns.Pairwise (L.Compatible m)) {n : NodeId}
    (hn : n ∈ ns) {p : List Step} {l : Label String} (hl : L.labelAt m n p = some l) :
    L.commonShape m ns p = l.kind := by
  have hall : ∀ n ∈ ns, ∀ n' ∈ ns, L.Compatible m n n' := fun n hn n' hn' =>
    List.Pairwise.forall_of_forall_of_flip (fun n _ => Compatible.refl n) h (h.imp Compatible.symm)
      hn hn'
  rw [commonShape]
  cases hfind : ns.findSome? fun n => L.labelAt m n p with
  | none =>
      have hnone := List.findSome?_eq_none_iff.1 hfind n hn
      rw [hl] at hnone
      cases hnone
  | some l' =>
      obtain ⟨n', hn', hl'⟩ := List.exists_of_findSome?_eq_some hfind
      exact hall n' hn' n hn p l' l hl' hl

namespace IsDocument

variable {n n' : NodeId}

theorem lt (h : L.IsDocument m n F) : ∀ i ∈ F, i < (L.nodes m).size := fun i hi => (h.2 i hi).1

/-- A document is a tree of the shape that it shares with other documents, and says something. -/
theorem isTree (h : L.IsDocument m n F) {ns : List NodeId}
    (hns : ns.Pairwise (L.Compatible m)) (hn : n ∈ ns) :
    ∃ t, IsTree (L.nodes m) (L.commonShape m ns) t n F ∧ t ≠ .absent := by
  obtain ⟨⟨σ, t, htree⟩, hheld⟩ := id h
  -- The shape of the document is exchanged for the common one.
  refine ⟨t, htree.reshape (fun i hi => (hheld i hi).2) fun p l hl => ?_,
    htree.defined_iff.1 (.held (hheld n htree.root_mem).2)⟩
  exact commonShape_eq hns hn ((htree.labelAt_eq h.lt p).trans hl)

theorem apart (h : L.IsDocument m n' H) (hdisjoint : ∀ i ∈ F, i ∉ H) : Apart (L.nodes m) F H :=
  fun i hi => ⟨h.lt i hi, fun hF => hdisjoint i hF hi⟩

end IsDocument

/-- Trees that say what two compatible documents say are compatible. -/
theorem Compatible.trees {n n' : NodeId} {t u : Tree} (h : L.Compatible m n n')
    (hn : L.IsDocument m n F) (hn' : L.IsDocument m n' H) (ht : IsTree (L.nodes m) σ t n F)
    (hu : IsTree (L.nodes m) σ u n' H) : t.Compatible u :=
  fun p l l' hl hl' =>
    h p l l' ((ht.labelAt_eq hn.lt p).trans hl) ((hu.labelAt_eq hn'.lt p).trans hl')

/-- Trees of one shape are compatible. -/
theorem compatible_of_isTree {n n' : NodeId} {t u : Tree} (ht : IsTree (L.nodes m) σ t n F)
    (hu : IsTree (L.nodes m) σ u n' H) (hF : ∀ i ∈ F, i < (L.nodes m).size)
    (hH : ∀ i ∈ H, i < (L.nodes m).size) : L.Compatible m n n' := by
  intro p l l' hl hl'
  rw [ht.labelAt_eq hF] at hl
  rw [hu.labelAt_eq hH] at hl'
  rw [ht.kind_labelAt hl, hu.kind_labelAt hl']

end NodeLibrary

theorem IsTree.scalarAt_eq {n : NodeId} (h : IsTree (L.nodes m) σ t n F)
    (hlt : ∀ i ∈ F, i < (L.nodes m).size) (p : List Step) : L.scalarAt m n p = t.leafAt p := by
  rw [NodeLibrary.scalarAt, h.labelAt_eq hlt]
  rfl

/-! ## The laws of merging -/

/-- After a merge every path holds the scalar of the source or else that of the target, a second
merge of the source changes nothing, and merging another document after the source is merging it
into the source before. The shape of the trees is the one that all the documents have. -/
theorem mergeNode_overlays (L : NodeLibrary) (m : L.Memory) {target source : NodeId}
    {T S : Set NodeId} (ht : L.IsDocument m target T) (hs : L.IsDocument m source S)
    (hdisjoint : ∀ i ∈ T, i ∉ S) (hcompat : L.Compatible m target source) :
    ∃ v, Merges L m target source v ∧
      (∀ p, L.scalarAt v target p = (L.scalarAt m source p).or (L.scalarAt m target p)) ∧
      (∃ v', Merges L v target source v' ∧
        ∀ p, L.labelAt v' target p = L.labelAt v target p) ∧
      ∀ other O, L.IsDocument m other O → (∀ i ∈ T, i ∉ O) → (∀ i ∈ S, i ∉ O) →
        L.Compatible m target other → L.Compatible m source other →
        ∃ w x y, Merges L v target other w ∧ Merges L m source other x ∧
          Merges L x target source y ∧
          ∀ p, L.labelAt y target p = L.labelAt w target p := by
  have hpair : [target, source].Pairwise (L.Compatible m) := List.pairwise_pair.2 hcompat
  obtain ⟨t, htree, -⟩ := ht.isTree hpair (by simp)
  obtain ⟨u, hsource, hne⟩ := hs.isTree hpair (by simp)
  have htu := hcompat.trees ht hs htree hsource
  have happart := hs.apart hdisjoint
  obtain ⟨v, F, hv, htree₁, hchg₁⟩ := mergesTree u htree ht.lt hsource hne happart
  obtain ⟨v', F', hv', htree₂, hchg₂⟩ := mergesTree u htree₁ hchg₁.lt
    (hchg₁.isTree happart hsource) hne (hchg₁.apart happart)
  refine ⟨v, hv, fun p => ?_, ⟨v', hv', fun p => ?_⟩, ?_⟩
  · rw [htree₁.scalarAt_eq hchg₁.lt, htree.scalarAt_eq ht.lt, hsource.scalarAt_eq hs.lt,
      leafAt_merge htu]
  · rw [htree₂.labelAt_eq hchg₂.lt, htree₁.labelAt_eq hchg₁.lt, merge_merge_self htu]
  · intro other O ho hTO hSO hto hso
    have htriple : [target, source, other].Pairwise (L.Compatible m) := by
      simp [hcompat, hto, hso]
    obtain ⟨t, htree, -⟩ := ht.isTree htriple (by simp)
    obtain ⟨a, ha, hane⟩ := hs.isTree htriple (by simp)
    obtain ⟨b, hb, hbne⟩ := ho.isTree htriple (by simp)
    obtain ⟨v₁, F₁, hv₁, htree₁, hchg₁⟩ := mergesTree a htree ht.lt ha hane happart
    obtain rfl := hv.unique hv₁
    have hbapart := ho.apart hTO
    obtain ⟨w, F₂, hw, htree₂, hchg₂⟩ := mergesTree b htree₁ hchg₁.lt (hchg₁.isTree hbapart hb)
      hbne (hchg₁.apart hbapart)
    obtain ⟨x, A, hx, ha', hchg₃⟩ := mergesTree b ha hs.lt hb hbne (ho.apart hSO)
    -- The target is as it was, and the merged source does not reach into it.
    have htapart : Apart (L.nodes m) S T := ht.apart fun i hi hi' => hdisjoint i hi' hi
    have hx_apart : Apart (L.nodes x) T A := fun i hi =>
      ⟨hchg₃.lt i hi, fun hiT => (hchg₃.apart htapart i hiT).2 hi⟩
    obtain ⟨y, F₄, hy, htree₄, hchg₄⟩ := mergesTree (a.merge b) (hchg₃.isTree htapart htree)
      (fun i hi => (hchg₃.apart htapart i hi).1) ha' (merge_ne_absent hane) hx_apart
    refine ⟨w, x, y, hw, hx, hy, fun p => ?_⟩
    rw [htree₄.labelAt_eq hchg₄.lt, htree₂.labelAt_eq hchg₂.lt,
      merge_assoc (hcompat.trees ht hs htree ha) (hto.trees ht ho htree hb)
        (hso.trees hs ho ha hb)]

/-! ## Checking that a node is the root of a document -/

namespace NodeStore

/-- The nodes up to some distance below a node. -/
def below (s : NodeStore) : Nat → NodeId → List NodeId
  | 0, n => [n]
  | fuel + 1, n => n :: (s.value n).refs.flatMap (below s fuel)

/-- The nodes below a node, up to some distance, are what the shape has in their places. -/
def fitsShape (s : NodeStore) : Nat → Shape → NodeId → Bool
  | 0, _, _ => false
  | fuel + 1, σ, n =>
      match s.value n with
      | .scalar _ => σ [] = none
      | .sequence items =>
          σ [] = some .list && items.zipIdx.all fun p => fitsShape s fuel (σ.below (.index p.2)) p.1
      | .map held pairs =>
          held && decide (σ [] = some .record) && decide (pairs.map Prod.fst).Nodup &&
            pairs.all fun p => fitsShape s fuel (σ.below (.key p.1)) p.2
      | .null => false
      | .undefined => false

/-- A node with trees as children that share no node is a tree. -/
theorem exists_isTree_of_children {n : NodeId} {k : Branching} {P : NodeId → Set NodeId}
    (hk : (s.value n).branching = some k) (hkeys : ((s.value n).pairs.map Prod.fst).Nodup)
    (hσ : σ [] = some k)
    (htree : ∀ c e, (s.value n).child c = some e →
      ∃ t, IsTree s (σ.below c) t e (P e) ∧ t ≠ .absent)
    (hdisjoint : ∀ c c' e e', c ≠ c' → (s.value n).child c = some e →
      (s.value n).child c' = some e' → ∀ i ∈ P e, i ∉ P e')
    (hself : ∀ c e, (s.value n).child c = some e → n ∉ P e) :
    ∃ t, IsTree s σ t n {i | i = n ∨ ∃ c e, (s.value n).child c = some e ∧ i ∈ P e} := by
  -- A missing child says nothing.
  have hchoice : ∀ c, ∃ t, ((s.value n).child c = none → t = .absent) ∧
      ∀ e, (s.value n).child c = some e → IsTree s (σ.below c) t e (P e) ∧ t ≠ .absent := by
    intro c
    cases hc : (s.value n).child c with
    | none => exact ⟨.absent, fun _ => rfl, fun e he => by cases he⟩
    | some e =>
        obtain ⟨t, ht⟩ := htree c e hc
        refine ⟨t, ?_, ?_⟩
        · intro h
          cases h
        · intro e' he
          cases he
          exact ht
  choose d hmissing hd using hchoice
  let G : Step → Set NodeId := fun c => {i | ∃ e, (s.value n).child c = some e ∧ i ∈ P e}
  have hn : HasChildren s n k d G := by
    refine ⟨hk, hkeys, fun c hc =>
      ⟨hmissing c hc, by simp [G, hc]⟩, fun _ c e hc => (hd c e hc).2,
      ?_, ?_⟩
    · rintro c c' hne i ⟨e, hc, hi⟩ ⟨e', hc', hi'⟩
      exact hdisjoint c c' e e' hne hc hc' i hi hi'
    · rintro c ⟨e, hc, hi⟩
      exact hself c e hc hi
  refine ⟨_, .branch hn hσ (fun c e hc => ?_) rfl rfl⟩
  have hG : G c = P e := by
    ext i
    simp [G, hc]
  rw [hG]
  exact (hd c e hc).1

theorem mem_below (s : NodeStore) (fuel : Nat) (n : NodeId) : n ∈ s.below fuel n := by
  cases fuel <;> simp [below]

/-- Nodes that are below one node once are referred to once. -/
theorem nodup_refs {fuel : Nat} {n : NodeId} (h : (s.below (fuel + 1) n).Nodup) :
    (s.value n).refs.Nodup := by
  rw [below, List.nodup_cons, List.nodup_flatMap] at h
  apply h.2.2.imp
  rintro a b hab rfl
  exact hab (s.mem_below fuel a) (s.mem_below fuel a)

/-- Two children of a node that is referred to once are different. -/
theorem child_injective {n : NodeId} (hrefs : (s.value n).refs.Nodup) {c c' : Step} {e : NodeId}
    (hc : (s.value n).child c = some e) (hc' : (s.value n).child c' = some e) : c = c' := by
  cases hv : s.value n with
  | sequence items =>
      rw [hv] at hc hc' hrefs
      cases c with
      | key name => cases hc
      | index i =>
          cases c' with
          | key name => cases hc'
          | index j =>
              have hi : i < items.length := (List.getElem?_eq_some_iff.1 hc).1
              have hij : items[i]? = items[j]? := Eq.trans hc (Eq.symm hc')
              rw [(List.getElem?_inj hi hrefs).1 hij]
  | map held pairs =>
      rw [hv] at hc hc' hrefs
      cases c with
      | index i => cases hc
      | key name =>
          cases c' with
          | index i => cases hc'
          | key name' =>
              have hpair := List.inj_on_of_nodup_map hrefs (PairList.mem_of_lookup hc)
                (PairList.mem_of_lookup hc') rfl
              rw [(Prod.mk.inj hpair).1]
  | undefined => rw [hv] at hc; cases hc
  | null => rw [hv] at hc; cases hc
  | scalar x => rw [hv] at hc; cases hc

/-- What the check says of a node with children. -/
theorem fitsShape_child {fuel : Nat} {n : NodeId} (h : s.fitsShape (fuel + 1) σ n = true)
    {k : Branching} (hk : (s.value n).branching = some k) :
    σ [] = some k ∧ (s.value n).held = true ∧ ((s.value n).pairs.map Prod.fst).Nodup ∧
      ∀ c e, (s.value n).child c = some e → s.fitsShape fuel (σ.below c) e = true := by
  rw [fitsShape] at h
  cases hv : s.value n with
  | sequence items =>
      rw [hv] at h hk
      cases hk
      simp only [Bool.and_eq_true, decide_eq_true_eq, List.all_eq_true] at h
      refine ⟨h.1, rfl, List.nodup_nil, fun c e hc => ?_⟩
      cases c with
      | key name => cases hc
      | index i => exact h.2 (e, i) (List.mem_zipIdx_iff_getElem?.2 hc)
  | map held pairs =>
      rw [hv] at h hk
      cases hk
      simp only [Bool.and_eq_true, decide_eq_true_eq, List.all_eq_true] at h
      obtain ⟨⟨⟨hheld, hσ⟩, hkeys⟩, hall⟩ := h
      refine ⟨hσ, hheld, hkeys, fun c e hc => ?_⟩
      cases c with
      | key name => exact hall (name, e) (PairList.mem_of_lookup hc)
      | index i => cases hc
  | undefined => rw [hv] at hk; cases hk
  | null => rw [hv] at hk; cases hk
  | scalar x => rw [hv] at hk; cases hk

/-- Only a scalar has no children and passes the check. -/
theorem exists_scalar_of_fitsShape {fuel : Nat} {n : NodeId} (h : s.fitsShape (fuel + 1) σ n = true)
    (hk : (s.value n).branching = none) : ∃ x, s.value n = .scalar x ∧ σ [] = none := by
  rw [fitsShape] at h
  cases hv : s.value n with
  | scalar x =>
      rw [hv] at h
      exact ⟨x, rfl, of_decide_eq_true h⟩
  | sequence items => rw [hv] at hk; cases hk
  | map held pairs => rw [hv] at hk; cases hk
  | undefined => rw [hv] at h; cases h
  | null => rw [hv] at h; cases h

/-- Below a node are the node and what is below its children. -/
theorem mem_below_succ {n : NodeId} (hkeys : ((s.value n).pairs.map Prod.fst).Nodup) (fuel : Nat)
    (i : NodeId) : i ∈ s.below (fuel + 1) n ↔
      i = n ∨ ∃ c e, (s.value n).child c = some e ∧ i ∈ s.below fuel e := by
  rw [below, List.mem_cons, List.mem_flatMap]
  apply or_congr_right
  constructor
  · rintro ⟨e, he, hi⟩
    obtain ⟨c, hc⟩ := NodeValue.exists_child hkeys he
    exact ⟨c, e, hc, hi⟩
  · rintro ⟨c, e, hc, hi⟩
    exact ⟨e, NodeValue.child_mem_refs hc, hi⟩

/-- A node that passes the check, and reaches no node twice, is the root of a tree of nodes that are
there by themselves. -/
theorem exists_isTree {fuel : Nat} {n : NodeId} (h : s.fitsShape fuel σ n = true)
    (hnodup : (s.below fuel n).Nodup) :
    ∃ t, IsTree s σ t n {i | i ∈ s.below fuel n} ∧
      ∀ i ∈ s.below fuel n, (s.value i).held = true := by
  induction fuel generalizing σ n with
  | zero => cases h
  | succ fuel ih =>
      cases hk : (s.value n).branching with
      | none =>
          obtain ⟨x, hv, hσ⟩ := exists_scalar_of_fitsShape h hk
          have hbelow : s.below (fuel + 1) n = [n] := by rw [below, hv]; rfl
          rw [hbelow]
          refine ⟨.leaf x, ?_, fun i hi => ?_⟩
          · simpa using IsTree.scalar hv hσ
          · rw [List.mem_singleton.1 hi, hv]
            rfl
      | some k =>
          obtain ⟨hσ, hheld, hkeys, hchild⟩ := fitsShape_child h hk
          have hrefs := nodup_refs hnodup
          rw [below, List.nodup_cons, List.nodup_flatMap] at hnodup
          obtain ⟨hroot, hsub, hdisjoint⟩ := hnodup
          have hsymm : Std.Symm (Function.onFun List.Disjoint (s.below fuel)) :=
            ⟨fun _ _ h _ ha hb => h hb ha⟩
          have htree := fun c e (hc : (s.value n).child c = some e) =>
            ih (hchild c e hc) (hsub e (NodeValue.child_mem_refs hc))
          obtain ⟨t, ht⟩ := exists_isTree_of_children (P := fun e => {i | i ∈ s.below fuel e}) hk
            hkeys hσ (fun c e hc => (htree c e hc).imp fun t ht =>
              ⟨ht.1, ht.1.defined_iff.1 (.held (ht.2 e (s.mem_below fuel e)))⟩)
            (fun c c' e e' hne hc hc' i hi hi' => by
              have hee : e ≠ e' := by
                rintro rfl
                exact hne (child_injective hrefs hc hc')
              exact hdisjoint.forall (NodeValue.child_mem_refs hc) (NodeValue.child_mem_refs hc') hee
                hi hi')
            fun c e hc hi => hroot (List.mem_flatMap.2 ⟨e, NodeValue.child_mem_refs hc, hi⟩)
          have hbelow : {i | i ∈ s.below (fuel + 1) n} =
              {i | i = n ∨ ∃ c e, (s.value n).child c = some e ∧ i ∈ s.below fuel e} :=
            Set.ext (mem_below_succ hkeys fuel)
          rw [hbelow]
          refine ⟨t, ht, fun i hi => ?_⟩
          rcases (mem_below_succ hkeys fuel i).1 hi with rfl | ⟨c, e, hc, hi'⟩
          · exact hheld
          · obtain ⟨-, -, h⟩ := htree c e hc
            exact h i hi'

end NodeStore

/-! ## Three documents -/

/-- The kind of node at each path of the documents. -/
def nestedShape : Shape := fun p =>
  if p = [] ∨ p = [.key "l0"] then some .record
  else if p = [.key "l1"] ∨ p = [.key "l2"] then some .list
  else none

/-- The nodes of the documents
```
{l0: {a: 3, c: 4}, l2: [0]}
{l0: {a: 1}, l1: [1]}
{l0: {b: 2}, l2: [5, 6]}
```
-/
def nestedNodes : StoredNodes where
  size := 17
  value
    | 0 => .map true [("l0", 1), ("l2", 4)]
    | 1 => .map true [("a", 2), ("c", 3)]
    | 2 => .scalar "3"
    | 3 => .scalar "4"
    | 4 => .sequence [5]
    | 5 => .scalar "0"
    | 6 => .map true [("l0", 7), ("l1", 9)]
    | 7 => .map true [("a", 8)]
    | 8 => .scalar "1"
    | 9 => .sequence [10]
    | 10 => .scalar "1"
    | 11 => .map true [("l0", 12), ("l2", 14)]
    | 12 => .map true [("b", 13)]
    | 13 => .scalar "2"
    | 14 => .sequence [15, 16]
    | 15 => .scalar "5"
    | _ => .scalar "6"
  closed := by
    unfold NodeStore.Closed
    decide
  later := by decide

/-- The roots of the three documents: their nodes are trees of the shape. -/
theorem isTree_nestedNodes {n : NodeId} (h : n = 0 ∨ n = 6 ∨ n = 11) :
    ∃ t, IsTree nestedNodes.toNodeStore nestedShape t n {i | i ∈ nestedNodes.below 3 n} ∧
      ∀ i ∈ nestedNodes.below 3 n, i < nestedNodes.size ∧ (nestedNodes.value i).held = true := by
  have hlt : ∀ i ∈ nestedNodes.below 3 n, i < nestedNodes.size := by
    rcases h with rfl | rfl | rfl <;> decide
  have hfits : nestedNodes.fitsShape 3 nestedShape n = true := by
    rcases h with rfl | rfl | rfl <;> decide
  have hnodup : (nestedNodes.below 3 n).Nodup := by
    rcases h with rfl | rfl | rfl <;> decide
  obtain ⟨t, ht, hheld⟩ := NodeStore.exists_isTree hfits hnodup
  exact ⟨t, ht, fun i hi => ⟨hlt i hi, hheld i hi⟩⟩

theorem mergeNode_overlays_nested :
    ∃ v w x y : StoredNodes, Merges storedNodes nestedNodes 0 6 v ∧
      storedNodes.scalarAt v 0 [.key "l0", .key "a"] = some "1" ∧
      storedNodes.scalarAt v 0 [.key "l0", .key "c"] = some "4" ∧
      storedNodes.scalarAt v 0 [.key "l1", .index 0] = some "1" ∧
      storedNodes.scalarAt v 0 [.key "l2", .index 0] = some "0" ∧
      Merges storedNodes v 0 11 w ∧ Merges storedNodes nestedNodes 6 11 x ∧
      Merges storedNodes x 0 6 y ∧
      ∀ p, storedNodes.labelAt y 0 p = storedNodes.labelAt w 0 p := by
  obtain ⟨t, ht, hT⟩ := isTree_nestedNodes (Or.inl rfl)
  obtain ⟨u, hu, hS⟩ := isTree_nestedNodes (Or.inr (Or.inl rfl))
  obtain ⟨r, hr, hO⟩ := isTree_nestedNodes (Or.inr (Or.inr rfl))
  have h₁ : ∀ i ∈ nestedNodes.below 3 0, i ∉ nestedNodes.below 3 6 := by decide
  have h₂ : ∀ i ∈ nestedNodes.below 3 0, i ∉ nestedNodes.below 3 11 := by decide
  have h₃ : ∀ i ∈ nestedNodes.below 3 6, i ∉ nestedNodes.below 3 11 := by decide
  have hT' := fun i hi => (hT i hi).1
  have hS' := fun i hi => (hS i hi).1
  have hO' := fun i hi => (hO i hi).1
  have htarget : storedNodes.IsDocument nestedNodes 0 {i | i ∈ nestedNodes.below 3 0} :=
    ⟨⟨_, t, ht⟩, hT⟩
  have hsource : storedNodes.IsDocument nestedNodes 6 {i | i ∈ nestedNodes.below 3 6} :=
    ⟨⟨_, u, hu⟩, hS⟩
  obtain ⟨v, hv, hscalar, -, hthird⟩ := mergeNode_overlays storedNodes nestedNodes htarget hsource
    h₁ (NodeLibrary.compatible_of_isTree ht hu hT' hS')
  obtain ⟨w, x, y, hw, hx, hy, hlabel⟩ := hthird 11 _ ⟨⟨_, r, hr⟩, hO⟩ h₂ h₃
    (NodeLibrary.compatible_of_isTree ht hr hT' hO') (NodeLibrary.compatible_of_isTree hu hr hS' hO')
  refine ⟨v, w, x, y, hv, ?_, ?_, ?_, ?_, hw, hx, hy, hlabel⟩
  · rw [hscalar]
    decide
  · rw [hscalar]
    decide
  · rw [hscalar]
    decide
  · rw [hscalar]
    decide

end JayBeams.Yaml
