import JayBeams.Library.OrderedMap
import JayBeams.Yaml.NodeLibrary
import Mathlib.Data.String.Basic

/-!
# Merging YAML nodes

`mergeNode` merges a node into another one in place, `merge` collects the override sections of a
node into the sections that apply in a scope, and `clone` copies these before a nested scope changes
them. They use the nodes of any library.

`mergeNode` follows the nodes of its source, which the model bounds: a source without a cycle is
followed to its leaves in fewer steps than there are nodes.

A section merged into a section writes its fields one after the other (`mergeNode_section`): the
target says what `SharedMap.writeAll` leaves, and no node is touched that the target does not own.
-/

set_option autoImplicit false

namespace JayBeams.Yaml

open Containers

/-- `jb::class_overrides` -/
abbrev ClassOverrides := OrderedMap String NodeId (· < ·)

variable (L : NodeLibrary)

/-- The loop of `merge_map`. -/
def mergeMap (mergeNode : NodeId → NodeId → L.Memory → Except Failure L.Memory)
    (target : NodeId) : List (String × NodeId) → L.Memory → Except Failure L.Memory
  | [], m => .ok m
  | (key, source) :: rest, m => do
      let (m, entry) ← L.entry m target key
      let m ← mergeNode entry source m
      mergeMap mergeNode target rest m

/-- The loop of `merge_sequences`, from the item `i` on. -/
def mergeSequences (mergeNode : NodeId → NodeId → L.Memory → Except Failure L.Memory)
    (target : NodeId) : Nat → List NodeId → L.Memory → Except Failure L.Memory
  | _, [], m => .ok m
  | i, source :: rest, m => do
      let m ←
        if i < L.size m target then do
          let (m, element) ← L.element m target i
          mergeNode element source m
        else
          let (m, copy) := L.clone m source
          L.pushBack m target copy
      mergeSequences mergeNode target (i + 1) rest m

def mergeNode : Nat → NodeId → NodeId → L.Memory → Except Failure L.Memory
  | 0, _, _, _ => .error .outOfFuel
  | n + 1, target, source, m =>
      match L.type m source with
      | .scalar => .ok (L.assign m target (L.scalar m source))
      | .map => mergeMap L (mergeNode n) target (L.pairs m source) m
      | .sequence => mergeSequences L (mergeNode n) target 0 (L.items m source) m
      | .null => .error (.runtimeError "merge_node: Null source nodes not supported")
      | .undefined => .error (.runtimeError "merge_node: Undefined source nodes not supported")

/-- The key of an override section starts with a colon. -/
def isClassKey (key : String) : Bool := key.toList.head? = some ':'

/-- The loop of `merge`. -/
def mergeClasses : ClassOverrides → List (String × NodeId) → L.Memory →
    Except Failure (ClassOverrides × L.Memory)
  | byClass, [], m => .ok (byClass, m)
  | byClass, (key, node) :: rest, m =>
      if !isClassKey key then mergeClasses byClass rest m
      else
        match byClass.find? key with
        | none => mergeClasses (byClass.emplace key node) rest m
        | some target => do
            let m ← mergeNode L ((L.nodes m).size + 1) target node m
            mergeClasses byClass rest m

/-- `jb::yaml::merge` -/
def merge (byClass : ClassOverrides) (node : Option NodeId) (m : L.Memory) :
    Except Failure (ClassOverrides × L.Memory) :=
  match node with
  | none => .ok (byClass, m)
  | some n =>
      if L.type m n = .map then mergeClasses L byClass (L.pairs m n) m else .ok (byClass, m)

/-- The loop of `clone`. -/
def cloneEntries : List (String × NodeId) → L.Memory → List (String × NodeId) × L.Memory
  | [], m => ([], m)
  | (key, node) :: rest, m =>
      let (m, copy) := L.clone m node
      let (copies, m) := cloneEntries rest m
      ((key, copy) :: copies, m)

theorem keys_cloneEntries (entries : List (String × NodeId)) (m : L.Memory) :
    (cloneEntries L entries m).1.map Prod.fst = entries.map Prod.fst := by
  induction entries generalizing m with
  | nil => rfl
  | cons e entries ih =>
      rw [cloneEntries, List.map_cons, List.map_cons]
      exact congrArg _ (ih _)

/-- `jb::yaml::clone` -/
def clone (byClass : ClassOverrides) (m : L.Memory) : ClassOverrides × L.Memory :=
  (⟨(cloneEntries L byClass.entries m).1, by
      have h : ((cloneEntries L byClass.entries m).1.map Prod.fst).Pairwise (· < ·) := by
        rw [keys_cloneEntries]
        exact List.pairwise_map.2 byClass.sorted
      exact List.pairwise_map.1 h⟩,
    (cloneEntries L byClass.entries m).2)

/-! ## Merging a section -/

/-- The first store becomes the second by changes to a section, which then says `content`. -/
structure SectionUpdate (s t : NodeStore) (target : NodeId) (content : SharedMap String String) :
    Prop where
  isSection : t.IsSection target
  content_eq : t.content target = content
  size_le : s.size ≤ t.size
  frame : ∀ i, i < s.size → ¬ s.Owns target i → t.value i = s.value i
  owns : ∀ i, t.Owns target i → s.Owns target i ∨ s.size ≤ i

theorem SectionUpdate.trans {s t u : NodeStore} {target : NodeId} {c c' : SharedMap String String}
    (h₁ : SectionUpdate s t target c) (h₂ : SectionUpdate t u target c') :
    SectionUpdate s u target c' where
  isSection := h₂.isSection
  content_eq := h₂.content_eq
  size_le := Nat.le_trans h₁.size_le h₂.size_le
  frame i hi hn := by
    have hnt : ¬ t.Owns target i := by
      intro h
      rcases h₁.owns i h with h | h
      · exact hn h
      · exact absurd hi (Nat.not_lt.2 h)
    rw [h₂.frame i (Nat.lt_of_lt_of_le hi h₁.size_le) hnt, h₁.frame i hi hn]
  owns i hi := by
    rcases h₂.owns i hi with h | h
    · exact h₁.owns i h
    · exact Or.inr (Nat.le_trans h₁.size_le h)

section Field

variable {s t : NodeStore} {target : NodeId} {key x : String}

/-- Assigning a text to a field writes its cell: the keys that share the node change with it, and only
those. -/
theorem sectionUpdate_assigns (hs : s.Closed) (ht : target < s.size) (hsec : s.IsSection target)
    {e : NodeId} (he : s.find? target key = some e) (ha : s.Assigns t e (.scalar x)) :
    SectionUpdate s t target ((s.content target).write key x) := by
  obtain ⟨fields, hv, hkeys, hscalar⟩ := id hsec
  have howns : s.Owns target e := NodeStore.owns_of_find? he
  -- The entry is a scalar and the section is a map.
  have hne : target ≠ e := by
    rintro rfl
    obtain ⟨y, hy⟩ := hsec.text_of_find? he
    rw [NodeStore.text_eq_some_iff, hv] at hy
    cases hy
  have hv' : t.value target = .map true fields := (ha.value_eq target ht hne).trans hv
  have hfind : ∀ j, t.find? target j = s.find? target j := by
    intro j
    rw [NodeStore.find?_of_map hv', NodeStore.find?_of_map hv]
  refine ⟨⟨fields, hv', hkeys, fun f hf => ?_⟩, ?_, ha.size_le, ?_, ?_⟩
  · by_cases hf' : f.2 = e
    · exact ⟨x, by rw [hf']; exact ha.value_self⟩
    · obtain ⟨y, hy⟩ := hscalar f hf
      have hlt : f.2 < s.size := hs.pair_lt ht (by rw [hv]; exact hf)
      exact ⟨y, (ha.value_eq f.2 hlt hf').trans hy⟩
  · apply SharedMap.ext
    · funext a b
      simp only [SharedMap.same_write, NodeStore.content, hfind]
    · funext j
      by_cases hsame : (s.content target).same key j
      · rw [SharedMap.get?_write_of_same _ hsame, NodeStore.get?_content, hfind]
        have hj : s.find? target j = some e := by
          rcases hsame with rfl | ⟨h, -⟩
          · exact he
          · exact h.symm.trans he
        rw [hj, Option.bind_some, NodeStore.text_eq_some_iff.2 ha.value_self]
      · rw [SharedMap.get?_write_of_not_same _ hsame, NodeStore.get?_content, hfind,
          NodeStore.get?_content]
        cases hc : s.find? target j with
        | none => rfl
        | some c =>
            have hce : c ≠ e := by
              rintro rfl
              exact hsame (Or.inr ⟨he.trans hc.symm, he ▸ Option.some_ne_none _⟩)
            have hlt := hs target ht c (NodeStore.mem_refs_of_find? hc)
            simp only [Option.bind_some, NodeStore.text, ha.value_eq c hlt hce]
  · intro i hi hn
    apply ha.value_eq i hi
    rintro rfl
    exact hn howns
  · intro i hi
    rw [NodeStore.Owns, hv'] at hi
    left
    rwa [NodeStore.Owns, hv]

/-- The second store is the first one with one more node, a text under a new key of a map. -/
structure FieldAdded (s u : NodeStore) (target : NodeId) (fields fields' : List (String × NodeId))
    (key x : String) (e : NodeId) : Prop where
  before : s.value target = .map true fields
  keys : (fields.map Prod.fst).Nodup
  scalars : ∀ f ∈ fields, ∃ y, s.value f.2 = .scalar y
  fresh : fields.lookup key = none
  size_le : s.size ≤ u.size
  new : s.size ≤ e
  value_eq : ∀ i, i < s.size → i ≠ target → u.value i = s.value i
  added : u.value e = .scalar x
  after : u.value target = .map true fields'
  perm : fields'.Perm (fields ++ [(key, e)])

namespace FieldAdded

variable {u : NodeStore} {fields fields' : List (String × NodeId)} {e : NodeId}
  (h : FieldAdded s u target fields fields' key x e)

include h

theorem keys_after : (fields'.map Prod.fst).Nodup :=
  PairList.nodup_perm (PairList.nodup_concat h.keys h.fresh e) h.perm

theorem find?_eq (j : String) : u.find? target j = (fields ++ [(key, e)]).lookup j := by
  rw [NodeStore.find?_of_map h.after]
  exact PairList.lookup_perm (PairList.nodup_concat h.keys h.fresh e) h.perm j

theorem find?_key : u.find? target key = some e :=
  (h.find?_eq key).trans (PairList.lookup_concat_self h.fresh e)

theorem find?_of_ne {j : String} (hj : j ≠ key) : u.find? target j = s.find? target j := by
  rw [h.find?_eq, PairList.lookup_concat_of_ne hj, NodeStore.find?_of_map h.before]

theorem find?_before : s.find? target key = none :=
  (NodeStore.find?_of_map h.before key).trans h.fresh

/-- The nodes that the map refers to are older than the added one and are not the map itself. -/
theorem mem_fields (hs : s.Closed) (ht : target < s.size) {f : String × NodeId} (hf : f ∈ fields) :
    f.2 < s.size ∧ f.2 ≠ target := by
  constructor
  · apply hs.pair_lt ht
    rw [h.before]
    exact hf
  · intro heq
    obtain ⟨y, hy⟩ := h.scalars f hf
    rw [heq, h.before] at hy
    cases hy

theorem same_iff (hs : s.Closed) (ht : target < s.size) (a b : String) :
    (u.content target).same a b ↔ (s.content target).same a b := by
  have hnew : ∀ j, j ≠ key → u.find? target j ≠ some e := by
    intro j hj hc
    rw [h.find?_of_ne hj] at hc
    exact absurd (hs target ht _ (NodeStore.mem_refs_of_find? hc)) (Nat.not_lt.2 h.new)
  rw [NodeStore.content_same_iff, NodeStore.content_same_iff]
  by_cases ha : a = key
  · by_cases hb : b = key
    · simp [ha, hb]
    · -- The added node is under its key alone, and before it was added the key had none.
      constructor
      · rintro (rfl | ⟨hab, -⟩)
        · exact Or.inl rfl
        · rw [ha, h.find?_key] at hab
          exact absurd hab.symm (hnew b hb)
      · rintro (rfl | ⟨-, hne⟩)
        · exact Or.inl rfl
        · rw [ha, h.find?_before] at hne
          exact absurd rfl hne
  · by_cases hb : b = key
    · constructor
      · rintro (rfl | ⟨hab, -⟩)
        · exact Or.inl rfl
        · rw [hb, h.find?_key] at hab
          exact absurd hab (hnew a ha)
      · rintro (rfl | ⟨hab, hne⟩)
        · exact Or.inl rfl
        · rw [hab, hb, h.find?_before] at hne
          exact absurd rfl hne
    · rw [h.find?_of_ne ha, h.find?_of_ne hb]

/-- Adding a field with a text writes a cell of its own. -/
theorem content_eq (hs : s.Closed) (ht : target < s.size) :
    u.content target = (s.content target).write key x := by
  apply SharedMap.ext
  · funext a b
    exact propext (h.same_iff hs ht a b)
  · funext j
    by_cases hj : j = key
    · subst hj
      rw [SharedMap.get?_write_of_same _ ((s.content target).equivalence.refl j),
        NodeStore.get?_content, h.find?_key, Option.bind_some,
        NodeStore.text_eq_some_iff.2 h.added]
    · have hsame : ¬ (s.content target).same key j := by
        rintro (heq | ⟨-, hne⟩)
        · exact hj heq.symm
        · exact hne h.find?_before
      rw [SharedMap.get?_write_of_not_same _ hsame, NodeStore.get?_content, NodeStore.get?_content,
        h.find?_of_ne hj]
      cases hc : s.find? target j with
      | none => rfl
      | some c =>
          have hpair := NodeStore.mem_pairs_of_find? hc
          rw [h.before] at hpair
          have hmem := h.mem_fields hs ht hpair
          simp only [Option.bind_some, NodeStore.text, h.value_eq c hmem.1 hmem.2]

theorem sectionUpdate (hs : s.Closed) (ht : target < s.size) :
    SectionUpdate s u target ((s.content target).write key x) := by
  have hmem : ∀ f ∈ fields', f ∈ fields ∨ f = (key, e) := by
    intro f hf
    simpa using h.perm.mem_iff.1 hf
  refine ⟨⟨fields', h.after, h.keys_after, fun f hf => ?_⟩, h.content_eq hs ht, h.size_le, ?_, ?_⟩
  · rcases hmem f hf with hf | rfl
    · have hold := h.mem_fields hs ht hf
      rw [h.value_eq f.2 hold.1 hold.2]
      exact h.scalars f hf
    · exact ⟨x, h.added⟩
  · intro i hi hn
    apply h.value_eq i hi
    rintro rfl
    exact hn NodeStore.owns_self
  · rintro i (rfl | hi)
    · exact Or.inl NodeStore.owns_self
    · rw [h.after] at hi
      obtain ⟨f, hf, rfl⟩ := List.mem_map.1 hi
      rcases hmem f hf with hf | rfl
      · left
        right
        rw [h.before]
        exact List.mem_map_of_mem hf
      · exact Or.inr h.new

end FieldAdded

end Field

section Merge

variable {L} {m : L.Memory} {target : NodeId}

/-- A scalar is merged by assigning its text. -/
theorem mergeNode_scalar {source : NodeId} (hlt : source < (L.nodes m).size) {x : String}
    (hx : (L.nodes m).value source = .scalar x) (n : Nat) (e : NodeId) :
    mergeNode L (n + 1) e source m = .ok (L.assign m e x) := by
  simp only [mergeNode, NodeLibrary.type_of_scalar hlt hx, L.scalar_eq m source x hlt hx]

/-- Merging a scalar under a key of a section writes the key. -/
theorem mergeField (ht : target < (L.nodes m).size) (hsec : (L.nodes m).IsSection target) (n : Nat)
    (key : String) {source : NodeId} {x : String} (hlt : source < (L.nodes m).size)
    (hx : (L.nodes m).value source = .scalar x) (hown : ¬ (L.nodes m).Owns target source) :
    ∃ m₁ e m₂, L.entry m target key = .ok (m₁, e) ∧ mergeNode L (n + 1) e source m₁ = .ok m₂ ∧
      SectionUpdate (L.nodes m) (L.nodes m₂) target (((L.nodes m).content target).write key x) := by
  obtain ⟨fields, hv, hkeys, hscalar⟩ := id hsec
  have hmap : ((L.nodes m).value target).asMap = some (true, fields) := by rw [hv]; rfl
  cases hfind : fields.lookup key with
  | some e =>
      obtain ⟨m₁, hentry, hext⟩ := L.entry_of_found m target true fields key e ht hmap hfind
      have he : (L.nodes m).find? target key = some e := (NodeStore.find?_of_map hv key).trans hfind
      have helt := L.closed m target ht e (NodeStore.mem_refs_of_find? he)
      refine ⟨m₁, e, L.assign m₁ e x, hentry, mergeNode_scalar
        (Nat.lt_of_lt_of_le hlt hext.size_le) ((hext.value_eq source hlt).trans hx) n e, ?_⟩
      apply sectionUpdate_assigns (L.closed m) ht hsec he
      exact .of_extends hext (L.assign_spec m₁ e x (Nat.lt_of_lt_of_le helt hext.size_le))
  | none =>
      obtain ⟨m₁, e, fields', hentry, hperm, hadd, hle, he, -⟩ :=
        L.entry_of_missing m target true fields key ht hmap hfind
      have hst : source ≠ target := fun h => hown (Or.inl h)
      have hset := L.assign_spec m₁ e x he
      have hte : target ≠ e := Nat.ne_of_lt (Nat.lt_of_lt_of_le ht hle)
      refine ⟨m₁, e, L.assign m₁ e x, hentry, mergeNode_scalar
        (Nat.lt_of_lt_of_le hlt hadd.size_le) ((hadd.value_eq source hlt hst).trans hx) n e, ?_⟩
      have hadded : FieldAdded (L.nodes m) (L.nodes (L.assign m₁ e x)) target fields fields' key x
          e := by
        refine ⟨hv, hkeys, hscalar, hfind, Nat.le_trans hadd.size_le hset.size_le, hle,
          fun i hi hit => ?_, hset.value_self, ?_, hperm⟩
        · rw [hset.value_eq i (Nat.lt_of_lt_of_le hi hadd.size_le)
            (Nat.ne_of_lt (Nat.lt_of_lt_of_le hi hle))]
          exact hadd.value_eq i hi hit
        · rw [hset.value_eq target (Nat.lt_of_lt_of_le ht hadd.size_le) hte]
          exact hadd.value_self
      exact hadded.sectionUpdate (L.closed m) ht

/-- The texts of a list of fields. -/
def fieldTexts (s : NodeStore) (ps : List (String × NodeId)) : List (String × String) :=
  ps.filterMap fun p => (s.text p.2).map fun x => (p.1, x)

theorem mergeMap_section (n : Nat) (ps : List (String × NodeId)) (ht : target < (L.nodes m).size)
    (hsec : (L.nodes m).IsSection target)
    (hps : ∀ p ∈ ps, p.2 < (L.nodes m).size ∧ ¬ (L.nodes m).Owns target p.2 ∧
      ∃ x, (L.nodes m).value p.2 = .scalar x) :
    ∃ m', mergeMap L (mergeNode L (n + 1)) target ps m = .ok m' ∧
      SectionUpdate (L.nodes m) (L.nodes m') target
        (((L.nodes m).content target).writeAll (fieldTexts (L.nodes m) ps)) := by
  induction ps generalizing m with
  | nil => exact ⟨m, rfl, hsec, rfl, Nat.le_refl _, fun _ _ _ => rfl, fun _ h => Or.inl h⟩
  | cons p ps ih =>
      obtain ⟨hlt, hown, x, hx⟩ := hps p (by simp)
      obtain ⟨m₁, e, m₂, hentry, hmerge, hupdate⟩ := mergeField ht hsec n p.1 hlt hx hown
      -- The rest of the source is older than the changes, and the target still does not own it.
      have hrest : ∀ q ∈ ps, q.2 < (L.nodes m₂).size ∧ ¬ (L.nodes m₂).Owns target q.2 ∧
          (L.nodes m₂).value q.2 = (L.nodes m).value q.2 := by
        intro q hq
        obtain ⟨hqlt, hqown, -⟩ := hps q (List.mem_cons_of_mem p hq)
        refine ⟨Nat.lt_of_lt_of_le hqlt hupdate.size_le, ?_, hupdate.frame q.2 hqlt hqown⟩
        intro h
        rcases hupdate.owns q.2 h with h | h
        · exact hqown h
        · exact absurd hqlt (Nat.not_lt.2 h)
      obtain ⟨m', hrun, hupdate'⟩ := ih (Nat.lt_of_lt_of_le ht hupdate.size_le) hupdate.isSection
        fun q hq => by
          obtain ⟨hqlt, hqown, hqv⟩ := hrest q hq
          obtain ⟨-, -, y, hy⟩ := hps q (List.mem_cons_of_mem p hq)
          exact ⟨hqlt, hqown, y, hqv.trans hy⟩
      refine ⟨m', ?_, ?_⟩
      · simp only [mergeMap, hentry, bind, Except.bind, hmerge]
        exact hrun
      · have htext : fieldTexts (L.nodes m₂) ps = fieldTexts (L.nodes m) ps := by
          apply List.filterMap_congr
          intro q hq
          simp only [NodeStore.text, (hrest q hq).2.2]
        have htexts : fieldTexts (L.nodes m) (p :: ps) = (p.1, x) :: fieldTexts (L.nodes m) ps := by
          simp [fieldTexts, NodeStore.text, hx]
        rw [htexts, SharedMap.writeAll_cons, ← htext, ← hupdate.content_eq]
        exact hupdate.trans hupdate'

/-- The fields of a section with their texts, in the order of an iteration. -/
def NodeStore.fields (s : NodeStore) (n : NodeId) : List (String × String) :=
  fieldTexts s (s.value n).pairs

theorem NodeStore.AgreeOn.fields_eq {s t : NodeStore} {n : NodeId} (h : s.AgreeOn t n) :
    t.fields n = s.fields n := by
  rw [NodeStore.fields, NodeStore.fields, h.value_eq]
  apply List.filterMap_congr
  intro p hp
  simp only [NodeStore.text, h p.2 (Or.inr (NodeValue.mem_refs_of_mem_pairs hp))]

/-- A section merged into a section writes its fields. -/
theorem mergeNode_section (ht : target < (L.nodes m).size) (hsec : (L.nodes m).IsSection target)
    {source : NodeId} (hlt : source < (L.nodes m).size) (hsource : (L.nodes m).IsSection source)
    (hown : ∀ i, (L.nodes m).Owns source i → ¬ (L.nodes m).Owns target i) :
    ∃ m', mergeNode L ((L.nodes m).size + 1) target source m = .ok m' ∧
      SectionUpdate (L.nodes m) (L.nodes m') target
        (((L.nodes m).content target).writeAll ((L.nodes m).fields source)) := by
  obtain ⟨n, hn⟩ : ∃ n, (L.nodes m).size = n + 1 :=
    Nat.exists_eq_succ_of_ne_zero (Nat.ne_of_gt (Nat.zero_lt_of_lt ht))
  obtain ⟨m', hmerge, hupdate⟩ := mergeMap_section n ((L.nodes m).value source).pairs ht hsec
    fun p hp => by
      have howns : (L.nodes m).Owns source p.2 := Or.inr (NodeValue.mem_refs_of_mem_pairs hp)
      obtain ⟨x, hx⟩ := hsource.text_of_mem hp
      exact ⟨(L.closed m).owns_lt hlt howns, hown p.2 howns, x, NodeStore.text_eq_some_iff.1 hx⟩
  refine ⟨m', ?_, hupdate⟩
  have htype : L.type m source = .map := by
    obtain ⟨fields, hv, -⟩ := hsource
    rw [NodeLibrary.type_of_held hlt (by rw [hv]; rfl), hv]
    rfl
  rw [hn, mergeNode, htype, L.pairs_eq m source hlt htype, hsource.definedPairs_eq]
  exact hmerge

end Merge

end JayBeams.Yaml
