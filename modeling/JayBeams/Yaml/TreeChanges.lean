import JayBeams.Yaml.NodeTree

/-!
# Changes to a tree of nodes

A change to the nodes of one tree (`Changes`) leaves every other tree as it is. What the functions of
the library change is stated on the trees: to change a child (`Branches.replace`), to ask for a key
(`entry_spec`) and to append to a sequence (`pushBack_spec`).
-/

set_option autoImplicit false

namespace JayBeams.Yaml

open Containers OverlayTree

variable {s v w : NodeStore} {σ : Shape} {t u : Tree} {n m : NodeId} {F F' F'' H : Set NodeId}
  {k : Branching} {d : Step → Tree} {G : Step → Set NodeId}

/-! ## Changes to one tree -/

/-- The nodes of a tree become other ones, some of them new. Nothing else changes. -/
structure Changes (s v : NodeStore) (F F' : Set NodeId) : Prop where
  size_le : s.size ≤ v.size
  value_eq : ∀ i, i < s.size → i ∉ F → v.value i = s.value i
  old_or_new : ∀ i ∈ F', i ∈ F ∨ s.size ≤ i
  lt : ∀ i ∈ F', i < v.size

/-- Some nodes in use that have nothing to do with others. -/
def Apart (s : NodeStore) (F H : Set NodeId) : Prop := ∀ i ∈ H, i < s.size ∧ i ∉ F

namespace Changes

theorem refl (h : ∀ i ∈ F, i < s.size) : Changes s s F F :=
  ⟨Nat.le_refl s.size, fun _ _ _ => rfl, fun _ hi => Or.inl hi, h⟩

/-- A store that only gains nodes changes no tree. -/
theorem of_extends (h : ∀ i ∈ F, i < s.size) (hext : s.Extends v) : Changes s v F F :=
  ⟨hext.size_le, fun i hi _ => hext.value_eq i hi, fun _ hi => Or.inl hi,
    fun i hi => Nat.lt_of_lt_of_le (h i hi) hext.size_le⟩

/-- Two changes in a row are one: a node in use that the first leaves alone is none of its new nodes.
-/
theorem trans (h₁ : Changes s v F F') (h₂ : Changes v w F' F'') : Changes s w F F'' where
  size_le := Nat.le_trans h₁.size_le h₂.size_le
  value_eq i hi hF := by
    rw [h₂.value_eq i (Nat.lt_of_lt_of_le hi h₁.size_le), h₁.value_eq i hi hF]
    intro hF'
    rcases h₁.old_or_new i hF' with h | h
    · exact hF h
    · exact absurd hi (Nat.not_lt.2 h)
  old_or_new i hi := by
    rcases h₂.old_or_new i hi with h | h
    · exact h₁.old_or_new i h
    · exact Or.inr (Nat.le_trans h₁.size_le h)
  lt := h₂.lt

theorem apart (h : Changes s v F F') (hH : Apart s F H) : Apart v F' H := by
  intro i hi
  obtain ⟨hlt, hF⟩ := hH i hi
  refine ⟨Nat.lt_of_lt_of_le hlt h.size_le, fun hF' => ?_⟩
  rcases h.old_or_new i hF' with h' | h'
  · exact hF h'
  · exact absurd hlt (Nat.not_lt.2 h')

/-- Trees of other nodes are as they were. -/
theorem isTree (h : Changes s v F F') (hH : Apart s F H) (hu : IsTree s σ u m H) :
    IsTree v σ u m H :=
  hu.frame fun i hi => h.value_eq i (hH i hi).1 (hH i hi).2

end Changes

/-! ## Children -/

namespace Branches

/-- Children stay when their nodes keep their values. -/
theorem frame (h : Branches s σ n k d G) (hv : ∀ i ∈ footprint n G, v.value i = s.value i) :
    Branches v σ n k d G where
  toHasChildren := h.toHasChildren.congr (hv n (Or.inl rfl))
  shape := h.shape
  tree c e hc := by
    rw [hv n (Or.inl rfl)] at hc
    exact (h.tree c e hc).frame fun i hi => hv i (Or.inr ⟨c, hi⟩)

/-- One child has other nodes now, and maybe the root another value. -/
theorem changes_set (hlt : ∀ i ∈ footprint n G, i < s.size) {c : Step} (hsize : s.size ≤ v.size)
    (hvalue : ∀ i, i < s.size → i ≠ n → i ∉ G c → v.value i = s.value i)
    (hH : ∀ i ∈ H, (i ∈ G c ∨ s.size ≤ i) ∧ i < v.size) :
    Changes s v (footprint n G) (footprint n (Function.update G c H)) where
  size_le := hsize
  value_eq i hi hF := hvalue i hi (fun h => hF (Or.inl h)) fun h => hF (Or.inr ⟨c, h⟩)
  old_or_new := by
    rintro i (rfl | ⟨j, hj⟩)
    · exact Or.inl (Or.inl rfl)
    · by_cases hjc : j = c
      · subst hjc
        rw [Function.update_self] at hj
        exact (hH i hj).1.imp (fun h => Or.inr ⟨j, h⟩) id
      · rw [Function.update_of_ne hjc] at hj
        exact Or.inl (Or.inr ⟨j, hj⟩)
  lt := by
    rintro i (rfl | ⟨j, hj⟩)
    · exact Nat.lt_of_lt_of_le (hlt i (Or.inl rfl)) hsize
    · by_cases hjc : j = c
      · subst hjc
        rw [Function.update_self] at hj
        exact (hH i hj).2
      · rw [Function.update_of_ne hjc] at hj
        exact Nat.lt_of_lt_of_le (hlt i (Or.inr ⟨j, hj⟩)) hsize

/-- A node gets another tree for one of its children, or one child more. The nodes of the new child are
those of the old one and new ones, so the trees of the other children have none of them. -/
theorem set (h : Branches s σ n k d G) (hlt : ∀ i ∈ footprint n G, i < s.size) {c : Step}
    {e : NodeId} (hvalue : ∀ i, i < s.size → i ≠ n → i ∉ G c → v.value i = s.value i)
    (hbranching : (v.value n).branching = some k)
    (hnodup : ((v.value n).pairs.map Prod.fst).Nodup)
    (hchild : ∀ j, (v.value n).child j = if j = c then some e else (s.value n).child j)
    (hu : IsTree v (σ.below c) u e H) (hH : ∀ i ∈ H, i ∈ G c ∨ s.size ≤ i)
    (hne : k = .list → u ≠ .absent) :
    Branches v σ n k (Function.update d c u) (Function.update G c H) := by
  have hold : ∀ j i, i ∈ G j → i < s.size := fun j i hi => hlt i (Or.inr ⟨j, hi⟩)
  have hother : ∀ j, j ≠ c → (v.value n).child j = (s.value n).child j := by
    intro j hj
    rw [hchild, if_neg hj]
  have hself : (v.value n).child c = some e := by rw [hchild, if_pos rfl]
  have happart : ∀ j, j ≠ c → ∀ i ∈ H, i ∉ G j := by
    intro j hj i hi hij
    rcases hH i hi with h' | h'
    · exact h.disjoint c j (Ne.symm hj) i h' hij
    · exact absurd (hold j i hij) (Nat.not_lt.2 h')
  refine ⟨⟨hbranching, hnodup, ?_, ?_, ?_, ?_⟩, h.shape, ?_⟩
  · intro j hj
    have hjc : j ≠ c := by
      rintro rfl
      rw [hself] at hj
      cases hj
    rw [Function.update_of_ne hjc, Function.update_of_ne hjc]
    exact h.missing j (hother j hjc ▸ hj)
  · intro hk j e' hj
    by_cases hjc : j = c
    · rw [hjc, Function.update_self]
      exact hne hk
    · rw [Function.update_of_ne hjc]
      exact h.items hk j e' (hother j hjc ▸ hj)
  · intro j j' hjj i hi hi'
    by_cases hjc : j = c
    · subst hjc
      rw [Function.update_self] at hi
      rw [Function.update_of_ne (Ne.symm hjj)] at hi'
      exact happart j' (Ne.symm hjj) i hi hi'
    · rw [Function.update_of_ne hjc] at hi
      by_cases hjc' : j' = c
      · subst hjc'
        rw [Function.update_self] at hi'
        exact happart j hjc i hi' hi
      · rw [Function.update_of_ne hjc'] at hi'
        exact h.disjoint j j' hjj i hi hi'
  · intro j hj
    by_cases hjc : j = c
    · subst hjc
      rw [Function.update_self] at hj
      rcases hH n hj with h' | h'
      · exact h.self j h'
      · exact absurd (hlt n (Or.inl rfl)) (Nat.not_lt.2 h')
    · rw [Function.update_of_ne hjc] at hj
      exact h.self j hj
  · intro j e' hj
    by_cases hjc : j = c
    · subst hjc
      rw [Function.update_self, Function.update_self]
      rw [hself] at hj
      cases hj
      exact hu
    · rw [Function.update_of_ne hjc, Function.update_of_ne hjc]
      apply (h.tree j e' (hother j hjc ▸ hj)).frame
      intro i hi
      apply hvalue i (hold j i hi)
      · rintro rfl
        exact h.self j hi
      · exact h.disjoint j c hjc i hi

/-- A child becomes another tree. -/
theorem replace (h : Branches s σ n k d G) (hlt : ∀ i ∈ footprint n G, i < s.size) {c : Step}
    {e : NodeId} (hc : (s.value n).child c = some e) (hchg : Changes s v (G c) H)
    (hu : IsTree v (σ.below c) u e H) (hne : k = .list → u ≠ .absent) :
    Branches v σ n k (Function.update d c u) (Function.update G c H) ∧
      Changes s v (footprint n G) (footprint n (Function.update G c H)) := by
  have hroot : v.value n = s.value n := hchg.value_eq n (hlt n (Or.inl rfl)) (h.self c)
  have hvalue : ∀ i, i < s.size → i ≠ n → i ∉ G c → v.value i = s.value i :=
    fun i hi _ hic => hchg.value_eq i hi hic
  constructor
  · apply h.set hlt hvalue _ _ _ hu hchg.old_or_new hne
    · rw [hroot]
      exact h.branching
    · rw [hroot]
      exact h.nodup
    · intro j
      rw [hroot]
      split
      · rename_i hj
        rw [hj, hc]
      · rfl
  · apply changes_set hlt hchg.size_le hvalue
    exact fun i hi => ⟨hchg.old_or_new i hi, hchg.lt i hi⟩

end Branches

/-- A node gets a value without children. -/
theorem branches_of_assigns {x : NodeValue} (ha : s.Assigns v n x) (hn : n < s.size)
    (hbranching : x.branching = some k) (hpairs : x.pairs = []) (hchild : ∀ c, x.child c = none)
    (hσ : σ [] = some k) :
    Branches v σ n k (fun _ => .absent) (fun _ => ∅) ∧
      Changes s v {n} (footprint n fun _ => ∅) := by
  have hnone : ∀ c e, (v.value n).child c ≠ some e := by
    intro c e hc
    rw [ha.value_self, hchild] at hc
    cases hc
  refine ⟨⟨⟨by rw [ha.value_self]; exact hbranching, ?_, fun _ _ => ⟨rfl, rfl⟩,
    fun _ c e hc => absurd hc (hnone c e), fun _ _ _ _ hi => hi.elim, fun _ hi => hi.elim⟩, hσ,
    fun c e hc => absurd hc (hnone c e)⟩, ha.size_le, fun i hi hin => ha.value_eq i hi hin, ?_, ?_⟩
  · rw [ha.value_self, hpairs]
    exact List.nodup_nil
  · rintro i (rfl | ⟨c, hc⟩)
    · exact Or.inl rfl
    · exact hc.elim
  · rintro i (rfl | ⟨c, hc⟩)
    · exact Nat.lt_of_lt_of_le hn ha.size_le
    · exact hc.elim

/-! ## Asking for a key -/

section Entry

variable {held : Bool} {ps ps' : List (String × NodeId)} {key : String} {e : NodeId}

/-- A key that is added is one child more. -/
theorem child_of_perm_concat (hkeys : (ps.map Prod.fst).Nodup) (hnone : ps.lookup key = none)
    (hperm : ps'.Perm (ps ++ [(key, e)])) (c : Step) :
    (NodeValue.map held ps').child c =
      if c = .key key then some e else (NodeValue.map held ps).child c := by
  cases c with
  | index i => rfl
  | key name =>
      show ps'.lookup name = if Step.key name = .key key then some e else ps.lookup name
      rw [PairList.lookup_perm (PairList.nodup_concat hkeys hnone e) hperm]
      by_cases hname : name = key
      · rw [hname, if_pos rfl]
        exact PairList.lookup_concat_self hnone e
      · rw [if_neg fun h => hname (Step.key.inj h)]
        exact PairList.lookup_concat_of_ne hname ps e

/-- A key with a new value that is not defined adds nothing to what the tree says: the new child says
nothing, as the missing one did. -/
theorem Branches.addPair (h : Branches s σ n .record d G) (hlt : ∀ i ∈ footprint n G, i < s.size)
    (hv : s.value n = .map held ps) (hnone : ps.lookup key = none)
    (hperm : ps'.Perm (ps ++ [(key, e)])) (ha : s.Assigns v n (.map held ps'))
    (hle : s.size ≤ e) (he : e < v.size) (hadded : v.value e = .undefined) :
    ∃ G', Branches v σ n .record d G' ∧ (v.value n).child (.key key) = some e ∧
      Changes s v (footprint n G) (footprint n G') := by
  have hkeys := h.nodup
  rw [hv] at hkeys
  have hmissing : (s.value n).child (.key key) = none := by
    rw [hv]
    exact hnone
  have hd : Function.update d (.key key) .absent = d := by
    rw [← (h.missing (.key key) hmissing).1, Function.update_eq_self]
  have hchild : ∀ c, (v.value n).child c =
      if c = .key key then some e else (s.value n).child c := by
    intro c
    rw [ha.value_self, hv]
    exact child_of_perm_concat hkeys hnone hperm c
  refine ⟨Function.update G (.key key) {e}, ?_, by rw [hchild, if_pos rfl], ?_⟩
  · rw [← hd]
    apply h.set hlt (fun i hi hin _ => ha.value_eq i hi hin) _ _ hchild (.undefined hadded) _ nofun
    · rw [ha.value_self]
      rfl
    · rw [ha.value_self]
      exact PairList.nodup_perm (PairList.nodup_concat hkeys hnone e) hperm
    · rintro i rfl
      exact Or.inr hle
  · apply Branches.changes_set hlt ha.size_le (fun i hi hin _ => ha.value_eq i hi hin)
    rintro i rfl
    exact ⟨Or.inr hle, he⟩

/-- Asking a node for a key gives the child under the key, which may not be defined yet. The tree says
what it said before. -/
theorem entry_spec {L : NodeLibrary} {m : L.Memory} (h : IsTree (L.nodes m) σ t n F)
    (hσ : σ [] = some .record) (hlt : ∀ i ∈ F, i < (L.nodes m).size) (key : String) :
    ∃ m' e G, L.entry m n key = .ok (m', e) ∧ Branches (L.nodes m') σ n .record t.child G ∧
      ((L.nodes m').value n).child (.key key) = some e ∧
      Changes (L.nodes m) (L.nodes m') F (footprint n G) ∧
      t = bundle .record (((L.nodes m').value n).held = true) t.child := by
  have hn : n < (L.nodes m).size := hlt n h.root_mem
  have hbundle := h.eq_bundle hσ
  rcases h.of_shape hσ with ⟨hv, rfl, rfl⟩ | ⟨G, hbranches, rfl⟩
  · -- The node becomes a map that is not held.
    obtain ⟨m', e, ps', hentry, hperm, ha, hle, he, hadded⟩ := L.entry_of_missing m n false [] key hn
      (by rw [hv]; rfl) rfl
    obtain ⟨hbranches, hchg⟩ := branches_of_assigns (s := L.nodes m) (x := .map false [])
      NodeStore.assigns_set hn rfl rfl (fun c => by cases c <;> rfl) hσ
    have ha' : ((L.nodes m).set n (.map false [])).Assigns (L.nodes m') n (.map false ps') := by
      refine ⟨ha.size_le, ha.value_self, fun i hi hin => ?_⟩
      rw [ha.value_eq i hi hin]
      exact (if_neg hin).symm
    obtain ⟨G', hG', hchild, hchg'⟩ := hbranches.addPair hchg.lt (if_pos rfl) rfl hperm ha' hle he
      hadded
    refine ⟨m', e, G', hentry, hG', hchild, hchg.trans hchg', ?_⟩
    rw [ha.value_self]
    simp [bundle, NodeValue.held]
  · obtain ⟨held, ps, hv⟩ := NodeValue.exists_pairs hbranches.branching
    have hmap : ((L.nodes m).value n).asMap = some (held, ps) := by rw [hv]; rfl
    cases hfind : ps.lookup key with
    | some e =>
        obtain ⟨m', hentry, hext⟩ := L.entry_of_found m n held ps key e hn hmap hfind
        have hroot := hext.value_eq n hn
        refine ⟨m', e, G, hentry, hbranches.frame fun i hi => hext.value_eq i (hlt i hi), ?_,
          Changes.of_extends hlt hext, ?_⟩
        · rw [hroot, hv]
          exact hfind
        · rw [hroot]
          exact hbundle
    | none =>
        obtain ⟨m', e, ps', hentry, hperm, ha, hle, he, hadded⟩ :=
          L.entry_of_missing m n held ps key hn hmap hfind
        obtain ⟨G', hG', hchild, hchg⟩ := hbranches.addPair hlt hv hfind hperm ha hle he hadded
        refine ⟨m', e, G', hentry, hG', hchild, hchg, ?_⟩
        rw [hv] at hbundle
        rw [ha.value_self]
        exact hbundle

end Entry

/-! ## Sequences -/

/-- The items of a sequence come before its length. -/
theorem IsTree.child_index {L : NodeLibrary} {m : L.Memory} (h : IsTree (L.nodes m) σ t n F)
    (hσ : σ [] = some .list) (hn : n < (L.nodes m).size) (i : Nat) :
    t.child (.index i) ≠ .absent ↔ i < L.size m n := by
  rcases h.of_shape hσ with ⟨hv, rfl, rfl⟩ | ⟨G, hbranches, rfl⟩
  · simp [L.size_of_not_defined m n hn (not_defined_of_undefined hv)]
  · obtain ⟨items, hv⟩ := NodeValue.exists_items hbranches.branching
    rw [L.size_of_sequence m n items hn hv (hbranches.items_defined hv)]
    constructor
    · intro hne
      by_contra hi
      apply hne
      apply (hbranches.missing (.index i) _).1
      rw [hv]
      exact List.getElem?_eq_none (Nat.le_of_not_lt hi)
    · intro hi
      apply hbranches.items rfl (.index i) items[i]
      rw [hv]
      exact List.getElem?_eq_getElem hi

/-- A node where a sequence may stand can be read as a sequence, of no items when it is not
defined. -/
theorem IsTree.exists_sequence {L : NodeLibrary} {m : L.Memory} (h : IsTree (L.nodes m) σ t n F)
    (hσ : σ [] = some .list) (hlt : ∀ i ∈ F, i < (L.nodes m).size) :
    ∃ r items G, Branches r σ n .list t.child G ∧ r.value n = .sequence items ∧
      Changes (L.nodes m) r F (footprint n G) ∧ r.size = (L.nodes m).size ∧
      (∀ i, i ≠ n → r.value i = (L.nodes m).value i) ∧ L.size m n = items.length ∧
      ((L.nodes m).value n).asItems = some items ∧ ∀ e ∈ items, (L.nodes m).Defined e := by
  have hn : n < (L.nodes m).size := hlt n h.root_mem
  rcases h.of_shape hσ with ⟨hv, rfl, rfl⟩ | ⟨G, hbranches, rfl⟩
  · obtain ⟨hbranches, hchg⟩ := branches_of_assigns (s := L.nodes m) (x := .sequence [])
      NodeStore.assigns_set hn rfl rfl (fun c => by cases c <;> rfl) hσ
    refine ⟨(L.nodes m).set n (.sequence []), [], _, hbranches, if_pos rfl, hchg, rfl,
      fun i hi => if_neg hi, L.size_of_not_defined m n hn (not_defined_of_undefined hv), ?_,
      fun e he => by cases he⟩
    rw [hv]
    rfl
  · obtain ⟨items, hv⟩ := NodeValue.exists_items hbranches.branching
    have hdef := hbranches.items_defined hv
    refine ⟨L.nodes m, items, G, hbranches, hv, Changes.refl hlt, rfl, fun _ _ => rfl,
      L.size_of_sequence m n items hn hv hdef, ?_, hdef⟩
    rw [hv]
    rfl

/-- Appending a new tree to a sequence makes it the last item. The items are still there after the copy
was made, and the appended one is there, so the sequence is. -/
theorem pushBack_spec {L : NodeLibrary} {m m₁ : L.Memory} (h : IsTree (L.nodes m) σ t n F)
    (hσ : σ [] = some .list) (hlt : ∀ i ∈ F, i < (L.nodes m).size)
    (hext : (L.nodes m).Extends (L.nodes m₁)) {e : NodeId}
    (hu : IsTree (L.nodes m₁) (σ.below (.index (L.size m n))) u e H)
    (hH : ∀ i ∈ H, (L.nodes m).size ≤ i ∧ i < (L.nodes m₁).size) (hne : u ≠ .absent) :
    ∃ m' F', L.pushBack m₁ n e = .ok m' ∧
      IsTree (L.nodes m') σ
        (bundle .list (t ≠ .absent) (Function.update t.child (.index (L.size m n)) u)) n F' ∧
      Changes (L.nodes m) (L.nodes m') F F' := by
  have hn : n < (L.nodes m).size := hlt n h.root_mem
  obtain ⟨r, items, G, hbranches, hv, hchg, hsize, hvalue, hlength, hitems, hdef⟩ :=
    h.exists_sequence hσ hlt
  have hdef₁ : ∀ e ∈ items, (L.nodes m₁).Defined e := by
    intro e he
    have hlt : e < (L.nodes m).size := by
      apply L.closed m n hn
      cases hvn : (L.nodes m).value n with
      | sequence is => rw [hvn] at hitems; cases hitems; exact he
      | undefined => rw [hvn] at hitems; cases hitems; cases he
      | null => rw [hvn] at hitems; cases hitems; cases he
      | scalar x => rw [hvn] at hitems; cases hitems
      | map held ps => rw [hvn] at hitems; cases hitems
    exact (hext.defined_iff (L.closed m) hlt).2 (hdef e he)
  obtain ⟨m', hpush, ha⟩ := L.pushBack_spec m₁ n items e (Nat.lt_of_lt_of_le hn hext.size_le)
    (hH e hu.root_mem).2 (hu.defined_iff.2 hne) (by rw [hext.value_eq n hn]; exact hitems) hdef₁
  have hroot := ha.value_self
  have hw : ∀ i, i < r.size → i ≠ n → (L.nodes m').value i = r.value i := by
    intro i hi hin
    rw [hsize] at hi
    rw [hvalue i hin, ← hext.value_eq i hi]
    exact ha.value_eq i (Nat.lt_of_lt_of_le hi hext.size_le) hin
  have hnH : n ∉ H := fun hi => absurd hn (Nat.not_lt.2 (hH n hi).1)
  have hu' : IsTree (L.nodes m') (σ.below (.index (L.size m n))) u e H :=
    hu.frame fun i hi => ha.value_eq i (hH i hi).2 fun hin : i = n => hnH (hin ▸ hi)
  have hchild : ∀ j, ((L.nodes m').value n).child j =
      if j = .index (L.size m n) then some e else (r.value n).child j := by
    intro j
    rw [hroot, hv, hlength]
    exact NodeValue.child_append items e j
  have hHr : ∀ i ∈ H, r.size ≤ i ∧ i < (L.nodes m').size := by
    intro i hi
    rw [hsize]
    exact ⟨(hH i hi).1, Nat.lt_of_lt_of_le (hH i hi).2 ha.size_le⟩
  have hle : r.size ≤ (L.nodes m').size := by
    rw [hsize]
    exact Nat.le_trans hext.size_le ha.size_le
  have hset := hbranches.set hchg.lt (c := .index (L.size m n)) (fun i hi hin _ => hw i hi hin)
    (by rw [hroot]; rfl) (by rw [hroot]; exact List.nodup_nil) hchild hu'
    (fun i hi => Or.inr (hHr i hi).1) fun _ => hne
  have hchg' : Changes r (L.nodes m') (footprint n G) _ :=
    Branches.changes_set (c := .index (L.size m n)) hchg.lt hle (fun i hi hin _ => hw i hi hin)
      fun i hi => ⟨Or.inr (hHr i hi).1, (hHr i hi).2⟩
  refine ⟨m', _, hpush, ?_, hchg.trans hchg'⟩
  have hthere : Function.update t.child (.index (L.size m n)) u (.index (L.size m n)) ≠ .absent := by
    rw [Function.update_self]
    exact hne
  have htree := hset.isTree
  rw [bundle_of_child hthere] at htree ⊢
  exact htree

end JayBeams.Yaml
