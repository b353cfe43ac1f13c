import JayBeams.Yaml.MergeYaml
import JayBeams.Yaml.TreeChanges

/-!
# Merging trees

`merge_node` changes the nodes of its target in place. On nodes that form a tree it makes the target
say what the overlay of the two trees says (`mergesTree`), it changes no other tree, and it ends
with enough fuel. The two loops graft one child after the other, and a step of a loop is one graft
(`mergeMap_step`, `mergeSequences_step`). The nodes may be those of any library.
-/

set_option autoImplicit false

namespace JayBeams.Yaml

open Containers OverlayTree

variable {L : NodeLibrary}

/-- With enough fuel `mergeNode` ends. -/
def Merges (L : NodeLibrary) (m : L.Memory) (target source : NodeId) (m' : L.Memory) : Prop :=
  ∃ n, ∀ fuel, n ≤ fuel → mergeNode L fuel target source m = .ok m'

theorem Merges.unique {m m₁ m₂ : L.Memory} {target source : NodeId}
    (h₁ : Merges L m target source m₁) (h₂ : Merges L m target source m₂) : m₁ = m₂ := by
  obtain ⟨a, ha⟩ := h₁
  obtain ⟨b, hb⟩ := h₂
  have h := (ha (max a b) (Nat.le_max_left a b)).symm.trans (hb (max a b) (Nat.le_max_right a b))
  exact Except.ok.inj h

/-- Merging a tree that says `u` into a tree overlays `u` on it. -/
def MergesTree (L : NodeLibrary) (u : Tree) : Prop :=
  ∀ ⦃m : L.Memory⦄ ⦃σ : Shape⦄ ⦃t : Tree⦄ ⦃target source : NodeId⦄ ⦃F H : Set NodeId⦄,
    IsTree (L.nodes m) σ t target F → (∀ i ∈ F, i < (L.nodes m).size) →
    IsTree (L.nodes m) σ u source H → u ≠ .absent → Apart (L.nodes m) F H →
    ∃ m' F', Merges L m target source m' ∧ IsTree (L.nodes m') σ (t.merge u) target F' ∧
      Changes (L.nodes m) (L.nodes m') F F'

variable {m : L.Memory} {s : NodeStore} {σ : Shape} {t : Tree} {target source : NodeId}
  {F H : Set NodeId} {w : Step → Tree} {G : Step → Set NodeId}

theorem Apart.mono {F' H' : Set NodeId} (h : Apart s F H) (hF : ∀ i ∈ F', i ∈ F)
    (hH : ∀ i ∈ H', i ∈ H) : Apart s F' H' :=
  fun i hi => ⟨(h i (hH i hi)).1, fun hi' => (h i (hH i hi)).2 (hF i hi')⟩

/-- A child to merge from: a tree apart from the target that says something. -/
structure MergeableChild (s : NodeStore) (σ : Shape) (F : Set NodeId) (c : Step) (u : Tree)
    (source : NodeId) (H : Set NodeId) : Prop where
  present : u ≠ .absent
  tree : IsTree s (σ.below c) u source H
  apart : Apart s F H

theorem MergeableChild.of_changes {v : NodeStore} {F' : Set NodeId} {c : Step} {u : Tree}
    (h : MergeableChild s σ F c u source H) (hchg : Changes s v F F') :
    MergeableChild v σ F' c u source H :=
  ⟨h.present, hchg.isTree h.apart h.tree, hchg.apart h.apart⟩

/-- The nodes of a child of the source are in use. -/
theorem MergeableChild.lt {c : Step} {u : Tree} (h : MergeableChild s σ F c u source H) :
    source < s.size := (h.apart source h.tree.root_mem).1

/-! ## Maps -/

/-- One step of the loop of `merge_map` grafts one child: the entry of the key is found or added, and
the source is merged into it, which leaves the target itself alone. -/
theorem mergeMap_step {key : String} (ih : MergesTree L (w (.key key)))
    (hσ : σ [] = some .record) (htree : IsTree (L.nodes m) σ t target F)
    (hlt : ∀ i ∈ F, i < (L.nodes m).size)
    (hsource : MergeableChild (L.nodes m) σ F (.key key) (w (.key key)) source H) :
    ∃ m' F', (∃ n, ∀ fuel, n ≤ fuel → ∀ rest,
        mergeMap L (mergeNode L fuel) target ((key, source) :: rest) m =
          mergeMap L (mergeNode L fuel) target rest m') ∧
      IsTree (L.nodes m') σ (mergeAt w .record t (.key key)) target F' ∧
      Changes (L.nodes m) (L.nodes m') F F' := by
  obtain ⟨m₁, e, G, hentry, hbranches, hchild, hchg₁, hbundle⟩ := entry_spec htree hσ hlt key
  have hsource₁ := hsource.of_changes hchg₁
  have hsub : ∀ i ∈ G (.key key), i ∈ footprint target G := fun i hi => Or.inr ⟨_, hi⟩
  obtain ⟨m₂, H', ⟨n, hmerge⟩, htree₂, hchg₂⟩ := ih (hbranches.tree _ e hchild)
    (fun i hi => hchg₁.lt i (hsub i hi)) hsource₁.tree hsource₁.present
    (hsource₁.apart.mono hsub fun _ hi => hi)
  have hroot : (L.nodes m₂).value target = (L.nodes m₁).value target :=
    hchg₂.value_eq target (hchg₁.lt target (Or.inl rfl)) (hbranches.self _)
  obtain ⟨hbranches₂, hchg₃⟩ := hbranches.replace hchg₁.lt hchild hchg₂ htree₂ nofun
  refine ⟨m₂, _, ⟨n, fun fuel hfuel rest => ?_⟩, ?_, hchg₁.trans hchg₃⟩
  · simp only [mergeMap, hentry, bind, Except.bind, hmerge fuel hfuel]
  · have htree₃ := hbranches₂.isTree
    rw [hroot] at htree₃
    rw [mergeAt_of_eq_bundle w hbundle, graft_record]
    exact htree₃

/-- The loop of `merge_map` grafts its children. -/
theorem mergeMap_isTree (ih : ∀ c, MergesTree L (w c)) (hσ : σ [] = some .record)
    (ps : List (String × NodeId)) (htree : IsTree (L.nodes m) σ t target F)
    (hlt : ∀ i ∈ F, i < (L.nodes m).size)
    (hps : ∀ p ∈ ps,
      MergeableChild (L.nodes m) σ F (.key p.1) (w (.key p.1)) p.2 (G (.key p.1))) :
    ∃ m' F', (∃ n, ∀ fuel, n ≤ fuel → mergeMap L (mergeNode L fuel) target ps m = .ok m') ∧
      IsTree (L.nodes m') σ ((ps.map fun p => Step.key p.1).foldl (mergeAt w .record) t) target
        F' ∧ Changes (L.nodes m) (L.nodes m') F F' := by
  induction ps generalizing m t F with
  | nil => exact ⟨m, F, ⟨0, fun _ _ => rfl⟩, htree, Changes.refl hlt⟩
  | cons p ps ihps =>
      obtain ⟨m₁, F₁, ⟨n₁, hstep⟩, htree₁, hchg₁⟩ := mergeMap_step (ih (.key p.1)) hσ htree hlt
        (hps p (by simp))
      obtain ⟨m', F', ⟨n₂, hrest⟩, htree₂, hchg₂⟩ := ihps htree₁ hchg₁.lt fun q hq =>
        (hps q (List.mem_cons_of_mem p hq)).of_changes hchg₁
      refine ⟨m', F', ⟨max n₁ n₂, fun fuel hfuel => ?_⟩, htree₂, hchg₁.trans hchg₂⟩
      rw [hstep fuel (Nat.le_trans (Nat.le_max_left n₁ n₂) hfuel)]
      exact hrest fuel (Nat.le_trans (Nat.le_max_right n₁ n₂) hfuel)

/-! ## Sequences -/

/-- An item that the target has gets the item of the source merged into it. It stays there, so the list
keeps its length. -/
theorem mergeSequences_item {i : Nat} (ih : MergesTree L (w (.index i))) (hσ : σ [] = some .list)
    (htree : IsTree (L.nodes m) σ t target F) (hlt : ∀ i ∈ F, i < (L.nodes m).size)
    (hi : i < L.size m target)
    (hsource : MergeableChild (L.nodes m) σ F (.index i) (w (.index i)) source H) :
    ∃ m' F', (∃ n, ∀ fuel, n ≤ fuel → ∀ rest,
        mergeSequences L (mergeNode L fuel) target i (source :: rest) m =
          mergeSequences L (mergeNode L fuel) target (i + 1) rest m') ∧
      IsTree (L.nodes m') σ (mergeAt w .list t (.index i)) target F' ∧
      Changes (L.nodes m) (L.nodes m') F F' := by
  have hn : target < (L.nodes m).size := hlt target htree.root_mem
  have hthere : t.child (.index i) ≠ .absent := (htree.child_index hσ hn i).2 hi
  have hbundle := htree.eq_bundle hσ
  rcases htree.of_shape hσ with ⟨hv, rfl, rfl⟩ | ⟨G, hbranches, rfl⟩
  · exact absurd rfl hthere
  · obtain ⟨items, hv⟩ := NodeValue.exists_items hbranches.branching
    have hdef := hbranches.items_defined hv
    obtain ⟨e, hchild, -⟩ := (hbranches.child_defined_iff (.index i)).2 hthere
    have hget : items[i]? = some e := by
      rw [hv] at hchild
      exact hchild
    obtain ⟨m₁, helement, hext⟩ := L.element_of_item m target items i e hn hv hdef hget
    have hchg₁ := Changes.of_extends hlt hext
    have hbranches₁ := hbranches.frame fun j hj => hext.value_eq j (hlt j hj)
    have hsource₁ := hsource.of_changes hchg₁
    have hsub : ∀ j ∈ G (.index i), j ∈ footprint target G := fun j hj => Or.inr ⟨_, hj⟩
    have hchild₁ : ((L.nodes m₁).value target).child (.index i) = some e := by
      rw [hext.value_eq target hn]
      exact hchild
    obtain ⟨m', H', ⟨n, hmerge⟩, htree₂, hchg₂⟩ := ih (hbranches₁.tree _ e hchild₁)
      (fun j hj => hchg₁.lt j (hsub j hj)) hsource₁.tree hsource₁.present
      (hsource₁.apart.mono hsub fun _ hj => hj)
    have hmerged := merge_ne_absent (u := w (.index i)) hthere
    have hroot : (L.nodes m').value target = (L.nodes m).value target := by
      rw [hchg₂.value_eq target (hchg₁.lt target (Or.inl rfl)) (hbranches₁.self _)]
      exact hext.value_eq target hn
    obtain ⟨hbranches₂, hchg₃⟩ := hbranches₁.replace hchg₁.lt hchild₁ hchg₂ htree₂ fun _ => hmerged
    refine ⟨m', _, ⟨n, fun fuel hfuel rest => ?_⟩, ?_, hchg₁.trans hchg₃⟩
    · simp only [mergeSequences, if_pos hi, helement, bind, Except.bind, hmerge fuel hfuel]
    · have htree₃ := hbranches₂.isTree
      rw [hroot] at htree₃
      rw [mergeAt_of_eq_bundle w hbundle, graft_of_ne_absent hthere]
      exact htree₃

/-- An item behind the end of the target is appended as a copy of the item of the source, and the copy
takes new nodes only. -/
theorem mergeSequences_append (hσ : σ [] = some .list) (htree : IsTree (L.nodes m) σ t target F)
    (hlt : ∀ i ∈ F, i < (L.nodes m).size)
    (hsource : MergeableChild (L.nodes m) σ F (.index (L.size m target))
      (w (.index (L.size m target))) source H) :
    ∃ m' F', (∀ fuel, ∀ rest,
        mergeSequences L (mergeNode L fuel) target (L.size m target) (source :: rest) m =
          mergeSequences L (mergeNode L fuel) target (L.size m target + 1) rest m') ∧
      IsTree (L.nodes m') σ (mergeAt w .list t (.index (L.size m target))) target F' ∧
      Changes (L.nodes m) (L.nodes m') F F' := by
  have hn : target < (L.nodes m).size := hlt target htree.root_mem
  have hmissing : t.child (.index (L.size m target)) = .absent := by
    by_contra hne
    exact absurd ((htree.child_index hσ hn _).1 hne) (Nat.lt_irrefl _)
  have hsourcedef := hsource.tree.defined_iff.2 hsource.present
  obtain ⟨copy, hclone, hcopy⟩ := L.clone_spec m source hsource.lt hsourcedef
  obtain ⟨H', hcopied, hH'⟩ := hsource.tree.clone hclone .refl hsourcedef
  rw [← hcopy] at hcopied
  have hfresh : ∀ j ∈ H', (L.nodes m).size ≤ j ∧ j < (L.nodes (L.clone m source).1).size := by
    intro j hj
    obtain ⟨i, -, hreach, rfl⟩ := hH' j hj
    exact hclone.fresh i hreach
  obtain ⟨m', F', hpush, htree₁, hchg⟩ := pushBack_spec htree hσ hlt hclone.extended hcopied hfresh
    hsource.present
  refine ⟨m', F', fun fuel rest => ?_, ?_, hchg⟩
  · simp only [mergeSequences, if_neg (Nat.lt_irrefl _), hpush, bind, Except.bind]
  · rw [mergeAt, hmissing, graft_list_absent]
    exact htree₁

/-- One step of the loop of `merge_sequences` grafts one child. -/
theorem mergeSequences_step {i : Nat} (ih : MergesTree L (w (.index i))) (hσ : σ [] = some .list)
    (htree : IsTree (L.nodes m) σ t target F) (hlt : ∀ i ∈ F, i < (L.nodes m).size)
    (hi : i ≤ L.size m target)
    (hsource : MergeableChild (L.nodes m) σ F (.index i) (w (.index i)) source H) :
    ∃ m' F', (∃ n, ∀ fuel, n ≤ fuel → ∀ rest,
        mergeSequences L (mergeNode L fuel) target i (source :: rest) m =
          mergeSequences L (mergeNode L fuel) target (i + 1) rest m') ∧
      IsTree (L.nodes m') σ (mergeAt w .list t (.index i)) target F' ∧
      Changes (L.nodes m) (L.nodes m') F F' := by
  rcases Nat.lt_or_eq_of_le hi with hlast | rfl
  · exact mergeSequences_item ih hσ htree hlt hlast hsource
  · obtain ⟨m', F', hrun, htree', hchg⟩ := mergeSequences_append hσ htree hlt hsource
    exact ⟨m', F', ⟨0, fun fuel _ rest => hrun fuel rest⟩, htree', hchg⟩

/-- The loop of `merge_sequences` grafts its children. After each of them its item is there, so the
next one is not behind the end. -/
theorem mergeSequences_isTree (ih : ∀ c, MergesTree L (w c)) (hσ : σ [] = some .list)
    (items : List NodeId) {i : Nat} (htree : IsTree (L.nodes m) σ t target F)
    (hlt : ∀ i ∈ F, i < (L.nodes m).size) (hi : i ≤ L.size m target)
    (hitems : ∀ j e, items[j]? = some e →
      MergeableChild (L.nodes m) σ F (.index (i + j)) (w (.index (i + j))) e (G (.index (i + j)))) :
    ∃ m' F', (∃ n, ∀ fuel, n ≤ fuel →
        mergeSequences L (mergeNode L fuel) target i items m = .ok m') ∧
      IsTree (L.nodes m') σ
        (((List.range' i items.length).map Step.index).foldl (mergeAt w .list) t) target F' ∧
      Changes (L.nodes m) (L.nodes m') F F' := by
  induction items generalizing m t F i with
  | nil => exact ⟨m, F, ⟨0, fun _ _ => rfl⟩, htree, Changes.refl hlt⟩
  | cons e items ihitems =>
      have hfirst := hitems 0 e rfl
      obtain ⟨m₁, F₁, ⟨n₁, hstep⟩, htree₁, hchg₁⟩ := mergeSequences_step (ih (.index i)) hσ htree hlt
        hi hfirst
      have hi₁ : i + 1 ≤ L.size m₁ target := by
        apply (htree₁.child_index hσ (hchg₁.lt target htree₁.root_mem) i).1
        rw [mergeAt, child_bundle, Function.update_self]
        by_cases hc : t.child (.index i) = .absent
        · rw [hc, graft_list_absent]
          exact hfirst.present
        · exact graft_ne_absent hc
      obtain ⟨m', F', ⟨n₂, hrest⟩, htree₂, hchg₂⟩ := ihitems htree₁ hchg₁.lt hi₁ fun j e' hj => by
        have hnext := hitems (j + 1) e' hj
        rw [show i + (j + 1) = i + 1 + j by omega] at hnext
        exact hnext.of_changes hchg₁
      refine ⟨m', F', ⟨max n₁ n₂, fun fuel hfuel => ?_⟩, htree₂, hchg₁.trans hchg₂⟩
      rw [hstep fuel (Nat.le_trans (Nat.le_max_left n₁ n₂) hfuel)]
      exact hrest fuel (Nat.le_trans (Nat.le_max_right n₁ n₂) hfuel)

/-! ## Any tree -/

/-- The pairs of a map with defined values are its children that say something. -/
theorem Branches.mem_definedPairs (h : Branches s σ source .record w G) {p : String × NodeId}
    (hp : p ∈ s.definedPairs source) :
    (s.value source).child (.key p.1) = some p.2 ∧ w (.key p.1) ≠ .absent := by
  obtain ⟨hpair, hdef⟩ := NodeStore.mem_definedPairs.1 hp
  have hchild := NodeValue.child_of_mem_pairs h.nodup hpair
  exact ⟨hchild, (h.tree _ _ hchild).defined_iff.1 hdef⟩

/-- A child that none of these pairs leads to says nothing. -/
theorem Branches.absent_of_not_mem (h : Branches s σ source .record w G) {c : Step}
    (hc : c ∉ (s.definedPairs source).map fun p => Step.key p.1) : w c = .absent := by
  by_contra hne
  obtain ⟨e, hchild, hdef⟩ := (h.child_defined_iff c).2 hne
  obtain ⟨name, rfl, hpair⟩ := NodeValue.mem_pairs_of_child h.branching hchild
  apply hc
  exact List.mem_map.2 ⟨(name, e), NodeStore.mem_definedPairs.2 ⟨hpair, hdef⟩, rfl⟩

theorem Branches.nodup_definedPairs (h : Branches s σ source .record w G) :
    ((s.definedPairs source).map fun p => Step.key p.1).Nodup := by
  have hkeys : ((s.definedPairs source).map Prod.fst).Nodup := by
    rw [NodeStore.definedPairs]
    exact h.nodup.sublist (List.filter_sublist.map Prod.fst)
  have hmap : ((s.definedPairs source).map fun p => Step.key p.1) =
      ((s.definedPairs source).map Prod.fst).map Step.key := by
    rw [List.map_map]
    rfl
  rw [hmap]
  exact hkeys.map fun a b h => Step.key.inj h

/-- A map is merged by the loop of `merge_map`. -/
theorem mergesTree_map (ih : ∀ c, MergesTree L (w c)) : MergesTree L (.branch .record w) := by
  intro m σ t target source F H htree hlt hsource hne happart
  have hdef := hsource.defined_iff.2 hne
  have hslt : source < (L.nodes m).size := (happart source hsource.root_mem).1
  obtain ⟨G, hbranches, rfl⟩ := hsource.of_branch
  have hσ := hbranches.shape
  have htype : L.type m source = .map := by
    obtain ⟨held, pairs, hv⟩ := NodeValue.exists_pairs hbranches.branching
    rw [L.type_of_defined m source hslt hdef, hv]
    rfl
  obtain ⟨m', F', ⟨n, hrun⟩, htree', hchg⟩ := mergeMap_isTree ih hσ
    ((L.nodes m).definedPairs source) htree hlt fun p hp => by
      obtain ⟨hchild, hpresent⟩ := hbranches.mem_definedPairs hp
      exact ⟨hpresent, hbranches.tree _ _ hchild,
        happart.mono (fun _ hi => hi) fun i hi => Or.inr ⟨_, hi⟩⟩
  rw [foldl_mergeAt w (htree.fits hσ) hbranches.nodup_definedPairs fun c hc =>
    hbranches.absent_of_not_mem hc] at htree'
  refine ⟨m', F', ⟨n + 1, fun fuel hfuel => ?_⟩, htree', hchg⟩
  obtain ⟨fuel, rfl⟩ := Nat.exists_eq_add_of_le' (Nat.le_trans (Nat.le_add_left 1 n) hfuel)
  rw [mergeNode, htype, L.pairs_eq m source hslt htype]
  exact hrun fuel (Nat.le_of_succ_le_succ hfuel)

/-- A sequence is merged by the loop of `merge_sequences`. -/
theorem mergesTree_sequence (ih : ∀ c, MergesTree L (w c)) : MergesTree L (.branch .list w) := by
  intro m σ t target source F H htree hlt hsource _ happart
  have hslt : source < (L.nodes m).size := (happart source hsource.root_mem).1
  obtain ⟨G, hbranches, rfl⟩ := hsource.of_branch
  have hσ := hbranches.shape
  obtain ⟨items, hv⟩ := NodeValue.exists_items hbranches.branching
  have htype : L.type m source = .sequence := by
    rw [NodeLibrary.type_of_held hslt (by rw [hv]; rfl), hv]
    rfl
  have hitem : ∀ j e, items[j]? = some e →
      ((L.nodes m).value source).child (.index j) = some e := by
    intro j e hj
    rw [hv]
    exact hj
  obtain ⟨m', F', ⟨n, hrun⟩, htree', hchg⟩ := mergeSequences_isTree ih hσ items (i := 0) htree hlt
    (Nat.zero_le _) fun j e hj => by
      rw [Nat.zero_add]
      exact ⟨hbranches.items rfl _ e (hitem j e hj), hbranches.tree _ e (hitem j e hj),
        happart.mono (fun _ hi => hi) fun i hi => Or.inr ⟨_, hi⟩⟩
  have hmissing : ∀ c, c ∉ (List.range' 0 items.length).map Step.index → w c = .absent := by
    intro c hc
    apply (hbranches.missing c _).1
    rw [hv]
    cases c with
    | key name => rfl
    | index j =>
        apply List.getElem?_eq_none
        by_contra hj
        apply hc
        exact List.mem_map.2 ⟨j, List.mem_range'_1.2 ⟨Nat.zero_le j, by omega⟩, rfl⟩
  have hnodup : ((List.range' 0 items.length).map Step.index).Nodup :=
    (List.nodup_range').map fun a b h => Step.index.inj h
  rw [foldl_mergeAt w (htree.fits hσ) hnodup hmissing] at htree'
  refine ⟨m', F', ⟨n + 1, fun fuel hfuel => ?_⟩, htree', hchg⟩
  obtain ⟨fuel, rfl⟩ := Nat.exists_eq_add_of_le' (Nat.le_trans (Nat.le_add_left 1 n) hfuel)
  rw [mergeNode, htype, L.items_eq m source items hslt hv (hbranches.items_defined hv)]
  exact hrun fuel (Nat.le_of_succ_le_succ hfuel)

/-- Merging overlays the tree of the source on the tree of the target, for every source. A scalar
replaces the target, which is one node. -/
theorem mergesTree (u : Tree) : MergesTree L u := by
  induction u with
  | absent => exact fun _ _ _ _ _ _ _ _ _ _ hne => absurd rfl hne
  | leaf x =>
      intro m σ t target source F H htree hlt hsource _ happart
      obtain ⟨hv, hσ⟩ := hsource.of_leaf
      obtain rfl := htree.of_shape_leaf hσ
      have ha := L.assign_spec m target x (hlt target rfl)
      refine ⟨L.assign m target x, {target}, ⟨1, fun fuel hfuel => ?_⟩, ?_, ha.size_le,
        fun i hi hin => ha.value_eq i hi hin, fun i hi => Or.inl hi, fun i hi => ?_⟩
      · obtain ⟨n, rfl⟩ := Nat.exists_eq_add_of_le' hfuel
        exact mergeNode_scalar (happart source hsource.root_mem).1 hv n target
      · rw [merge_leaf]
        exact .scalar ha.value_self hσ
      · exact Nat.lt_of_lt_of_le (hlt i hi) ha.size_le
  | branch k w ih =>
      cases k with
      | record => exact mergesTree_map ih
      | list => exact mergesTree_sequence ih

end JayBeams.Yaml
