import JayBeams.ConfigPrecedence
import JayBeams.Yaml.StoredNodes

/-!
# Configuration precedence over whole documents

A `Document` is what `YAML::Load` gives: nodes as they are loaded, with class keys that hold maps of
scalars. The nodes are those of any library. `FollowsPrecedence` says what a configuration is meant
to hold after a document has been applied: what the document gives by name, else what the innermost
override section gives, else the old value.

The sections of a document are kept apart from the ones that are merged, but not the fields inside a
section. When two fields of the outermost section for a class are one node, by an anchor and an
alias, the copy of the section has one node for them too, and an inner section that overrides one of
the fields overrides the other. So precedence holds for every configuration exactly when it gives
such fields the same text anyway (`applyOverrides_precedence_iff`).
-/

set_option autoImplicit false

namespace JayBeams.Config

open Yaml Containers

variable {V : Type} {L : NodeLibrary}

/-- A loaded document. -/
structure Document (L : NodeLibrary) where
  memory : L.Memory
  root : NodeId
  root_lt : root < (L.nodes memory).size
  sections : ∀ i, i < (L.nodes memory).size → HasSections (L.nodes memory) i

namespace Document

variable (doc : Document L)

/-- The nodes of the document. -/
def nodes : NodeStore := L.nodes doc.memory

theorem closed : doc.nodes.Closed := L.closed doc.memory

/-- The node at the end of a path of names. -/
def at? (path : List String) : Option NodeId := doc.nodes.walk (some doc.root) path

/-- The override section for a class in the node at the end of a path. -/
def section? (path : List String) (className : String) : Option NodeId :=
  if className = "" then none else doc.nodes.classSection (doc.at? path) (":" ++ className)

/-- The text that the override section at the end of a path gives to a field. -/
def gives (path : List String) (className field : String) : Option String :=
  (doc.section? path className).bind fun n => (doc.nodes.content n).get? field

/-- The node that sets a leaf by name. -/
def byName (leaf : Leaf V) : Option NodeId := doc.at? (leaf.owner ++ [leaf.descriptor.name])

/-- The text that the innermost section on a path gives to a field. -/
def innermost (path : List String) (className field : String) : Option String :=
  path.inits.reverse.findSome? fun p => doc.gives p className field

/-- The outermost section for a class on a path. -/
def outermost (path : List String) (className : String) : Option NodeId :=
  path.inits.findSome? fun p => doc.section? p className

/-- Fields that share a node in the outermost section are given the same text. -/
def AliasesAgree : Prop :=
  ∀ path className n, doc.outermost path className = some n → ∀ a b,
    (doc.nodes.content n).same a b →
      doc.innermost path className a = doc.innermost path className b

end Document

/-- The texts for a leaf convert to its type, and the class of a scalar has no section. -/
structure WellTypedLeaf (doc : Document L) (leaf : Leaf V) : Prop where
  byName : ∀ c, doc.byName leaf = some c →
    ∃ x, doc.nodes.text c = some x ∧ (leaf.convert x).isSome = true
  byClass : ∀ path, path <+: leaf.owner → path ≠ leaf.owner → ∀ x,
    doc.gives path leaf.ownerClass leaf.descriptor.name = some x → (leaf.convert x).isSome = true
  ownClass : ∀ path, path <+: leaf.owner → doc.section? path leaf.descriptor.className = none

/-- The leaves of a configuration object are those of an object without a class. -/
def WellTyped (doc : Document L) (attributes : List (Attribute V)) : Prop :=
  ∀ address leaf, leafAt? "" attributes address = some leaf → WellTypedLeaf doc leaf

/-- A leaf set by name has that value. Otherwise, if a section for the class of its owner, in a node
above the owner, gives the field, it has the value from the innermost one. Otherwise it keeps its
value. -/
structure LeafPrecedence (doc : Document L) (leaf : Leaf V) (before after : V) : Prop where
  byName : ∀ c, doc.byName leaf = some c → some after = (doc.nodes.text c).bind leaf.convert
  byClass : doc.byName leaf = none → ∀ path x, path <+: leaf.owner → path ≠ leaf.owner →
    doc.gives path leaf.ownerClass leaf.descriptor.name = some x →
    (∀ inner, path <+: inner → inner ≠ path → inner <+: leaf.owner → inner ≠ leaf.owner →
      doc.gives inner leaf.ownerClass leaf.descriptor.name = none) →
    some after = leaf.convert x
  kept : doc.byName leaf = none →
    (∀ path, path <+: leaf.owner → path ≠ leaf.owner →
      doc.gives path leaf.ownerClass leaf.descriptor.name = none) → after = before

/-- Every leaf of a configuration object follows the order of precedence. -/
def FollowsPrecedence (doc : Document L) (attributes : List (Attribute V))
    (before after : Values V) : Prop :=
  ∀ address leaf, leafAt? "" attributes address = some leaf →
    LeafPrecedence doc leaf (before address) (after address)

/-! ## Sections along a path -/

namespace Document

variable (doc : Document L)

theorem inits_snoc (path : List String) (name : String) :
    (path ++ [name]).inits = path.inits ++ [path ++ [name]] := by
  rw [List.inits_append]
  simp

theorem innermost_nil (className field : String) :
    doc.innermost [] className field = doc.gives [] className field := by
  simp [innermost]

theorem innermost_snoc (path : List String) (name className field : String) :
    doc.innermost (path ++ [name]) className field =
      (doc.gives (path ++ [name]) className field).or (doc.innermost path className field) := by
  rw [innermost, inits_snoc, List.reverse_append, List.findSome?_append, innermost]
  simp

theorem outermost_nil (className : String) :
    doc.outermost [] className = doc.section? [] className := by
  simp [outermost]

theorem outermost_snoc (path : List String) (name className : String) :
    doc.outermost (path ++ [name]) className =
      (doc.outermost path className).or (doc.section? (path ++ [name]) className) := by
  rw [outermost, inits_snoc, List.findSome?_append, outermost]
  simp

/-- The first section with a text counts, from the inside. -/
theorem innermost_eq_some {path p : List String} {className field x : String} (hp : p <+: path)
    (hx : doc.gives p className field = some x)
    (hinner : ∀ q, p <+: q → q ≠ p → q <+: path → doc.gives q className field = none) :
    doc.innermost path className field = some x := by
  induction path using List.reverseRecOn with
  | nil =>
      rw [List.prefix_nil.1 hp] at hx
      rw [innermost_nil, hx]
  | append_singleton path name ih =>
      rw [innermost_snoc]
      rcases List.prefix_concat_iff.1 hp with rfl | hp'
      · rw [hx, Option.some_or]
      · have hne : path ++ [name] ≠ p := by
          rintro rfl
          have hlen := hp'.length_le
          simp at hlen
        rw [hinner (path ++ [name]) hp hne (List.prefix_refl _), Option.none_or]
        exact ih hp' fun q hpq hqp hq => hinner q hpq hqp (hq.trans (List.prefix_append path [name]))

theorem innermost_eq_none {path : List String} {className field : String}
    (h : ∀ p, p <+: path → doc.gives p className field = none) :
    doc.innermost path className field = none := by
  rw [innermost, List.findSome?_eq_none_iff]
  intro p hp
  exact h p ((List.mem_inits p path).1 (List.mem_reverse.1 hp))

/-- What the innermost section gives, some section gives, and no section further inside. -/
theorem exists_gives {path : List String} {className field x : String}
    (h : doc.innermost path className field = some x) :
    ∃ p, p <+: path ∧ doc.gives p className field = some x ∧
      ∀ q, p <+: q → q ≠ p → q <+: path → doc.gives q className field = none := by
  induction path using List.reverseRecOn with
  | nil =>
      rw [innermost_nil] at h
      refine ⟨[], List.prefix_refl _, h, fun q _ hne hq => ?_⟩
      exact absurd (List.prefix_nil.1 hq) hne
  | append_singleton path name ih =>
      rw [innermost_snoc] at h
      cases hg : doc.gives (path ++ [name]) className field with
      | some y =>
          rw [hg, Option.some_or] at h
          refine ⟨path ++ [name], List.prefix_refl _, hg.trans h, fun q hpq hne hq => ?_⟩
          exact absurd (hq.eq_of_length_le hpq.length_le) hne
      | none =>
          rw [hg, Option.none_or] at h
          obtain ⟨p, hp, hx, hinner⟩ := ih h
          refine ⟨p, hp.trans (List.prefix_append path [name]), hx, fun q hpq hne hq => ?_⟩
          rcases List.prefix_concat_iff.1 hq with rfl | hq
          · exact hg
          · exact hinner q hpq hne hq

/-! ## Scopes of a document -/

/-- The scope in which the attributes of the configuration object are applied. -/
noncomputable def scope : Scope := Scope.enter (fun _ => none) doc.nodes (some doc.root)

/-- The scope inside the node at the end of a path. -/
noncomputable def scopeAt (path : List String) : Scope :=
  descend doc.nodes (some doc.root) doc.scope path

theorem at?_lt (path : List String) : ∀ c, doc.at? path = some c → c < doc.nodes.size := by
  apply walk_lt doc.closed
  intro i hi
  cases hi
  exact doc.root_lt

/-- A section of a document is a map of scalars under distinct keys. -/
theorem isSection {path : List String} {className : String} {n : NodeId}
    (h : doc.section? path className = some n) : n < doc.nodes.size ∧ doc.nodes.IsSection n := by
  rw [section?] at h
  split at h
  · cases h
  · cases hc : doc.at? path with
    | none => simp [hc, NodeStore.classSection] at h
    | some c =>
        rw [hc, NodeStore.classSection, if_pos (isClassKey_append className)] at h
        have hlt := doc.at?_lt path c hc
        refine ⟨doc.closed c hlt n (NodeStore.mem_refs_of_find? h), ?_⟩
        have hpair := (doc.sections c hlt).classes _ (NodeStore.mem_pairs_of_find? h)
        exact hpair (isClassKey_append className)

theorem descend_append (s : NodeStore) (n : Option NodeId) (scope : Scope) (p q : List String) :
    descend s n scope (p ++ q) = descend s (s.walk n p) (descend s n scope p) q := by
  induction p generalizing n scope with
  | nil => rfl
  | cons name p ih => rw [List.cons_append, descend_cons, ih, NodeStore.walk_cons, descend_cons]

theorem scopeAt_nil : doc.scopeAt [] = Scope.enter (fun _ => none) doc.nodes (doc.at? []) := rfl

theorem scopeAt_snoc (path : List String) (name : String) :
    doc.scopeAt (path ++ [name]) =
      (doc.scopeAt path).enter doc.nodes (doc.at? (path ++ [name])) := by
  rw [scopeAt, descend_append, descend_cons, descend_nil, at?, NodeStore.walk_append,
    NodeStore.walk_cons, NodeStore.walk_nil]
  rfl

/-- One step of a scope, under the key of a class. -/
theorem enter_class (scope : Scope) {className : String} (hne : className ≠ "") (path : List String) :
    scope.enter doc.nodes (doc.at? path) (":" ++ className) =
      match doc.section? path className with
      | none => scope (":" ++ className)
      | some c => some (overlay doc.nodes (scope (":" ++ className)) c) := by
  have hsection : doc.section? path className =
      doc.nodes.classSection (doc.at? path) (":" ++ className) := if_neg hne
  rw [hsection]
  rfl

/-- The fields of a section are what it says, under distinct keys. -/
theorem mem_fields {path : List String} {className : String} {c : NodeId}
    (h : doc.section? path className = some c) {w : String × String} :
    w ∈ doc.nodes.fields c ↔ (doc.nodes.content c).get? w.1 = some w.2 := by
  obtain ⟨hlt, hsec⟩ := doc.isSection h
  rw [NodeStore.fields, fieldTexts, List.mem_filterMap, NodeStore.get?_content,
    Option.bind_eq_some_iff]
  constructor
  · rintro ⟨p, hp, hx⟩
    obtain ⟨x, hxt, rfl⟩ := Option.map_eq_some_iff.1 hx
    exact ⟨p.2, PairList.lookup_of_mem hsec.nodup hp, hxt⟩
  · rintro ⟨r, hr, hx⟩
    refine ⟨(w.1, r), NodeStore.mem_pairs_of_find? hr, ?_⟩
    rw [hx]
    rfl

section Class

variable {className : String}

/-- A scope has a section for a class where the path has met one, and keys share a cell as they do in
the first one met. -/
theorem scopeAt_same (hne : className ≠ "") (path : List String) :
    (doc.scopeAt path (":" ++ className)).map SharedMap.same =
      (doc.outermost path className).map fun n => (doc.nodes.content n).same := by
  induction path using List.reverseRecOn with
  | nil =>
      rw [outermost_nil, scopeAt_nil, doc.enter_class _ hne]
      cases doc.section? [] className with
      | none => rfl
      | some c => rfl
  | append_singleton path name ih =>
      rw [scopeAt_snoc, doc.enter_class _ hne, outermost_snoc]
      cases hc : doc.section? (path ++ [name]) className with
      | none =>
          rw [Option.or_none]
          exact ih
      | some c =>
          cases hm : doc.scopeAt path (":" ++ className) with
          | none =>
              rw [hm, Option.map_none] at ih
              rw [Option.map_eq_none_iff.1 ih.symm, Option.none_or]
              rfl
          | some m =>
              rw [hm, Option.map_some] at ih
              obtain ⟨n, hn, hsame⟩ := Option.map_eq_some_iff.1 ih.symm
              rw [hn, Option.some_or, Option.map_some, Option.map_some, hsame, overlay,
                SharedMap.same_writeAll]

/-- Where aliases agree, a scope says what the innermost section says. -/
theorem scopeAt_get? (hagree : doc.AliasesAgree) (hne : className ≠ "") (path : List String)
    (field : String) : ((doc.scopeAt path (":" ++ className)).bind fun m => m.get? field) =
      doc.innermost path className field := by
  induction path using List.reverseRecOn generalizing field with
  | nil =>
      rw [innermost_nil, scopeAt_nil, doc.enter_class _ hne, gives]
      cases doc.section? [] className with
      | none => rfl
      | some c => rfl
  | append_singleton path name ih =>
      rw [innermost_snoc, scopeAt_snoc, doc.enter_class _ hne]
      have hsame := doc.scopeAt_same hne path
      cases hc : doc.section? (path ++ [name]) className with
      | none =>
          rw [gives, hc, Option.bind_none, Option.none_or]
          exact ih field
      | some c =>
          cases hm : doc.scopeAt path (":" ++ className) with
          | none =>
              rw [← ih field, hm, gives, hc]
              simp [overlay]
          | some m =>
              obtain ⟨n, hn, hmn⟩ := Option.map_eq_some_iff.1 (hsame.symm.trans (by rw [hm]; rfl))
              have hout : doc.outermost (path ++ [name]) className = some n := by
                rw [outermost_snoc, hn, Option.some_or]
              have hfinal : ∀ j, doc.innermost (path ++ [name]) className j =
                  ((doc.nodes.content c).get? j).or (m.get? j) := by
                intro j
                rw [innermost_snoc, ← ih j, hm, gives, hc, Option.bind_some, Option.bind_some]
              show (m.writeAll (doc.nodes.fields c)).get? field = _
              rw [← innermost_snoc]
              apply m.get?_writeAll
              · intro a b hab
                exact hagree (path ++ [name]) className n hout a b (by rw [hmn]; exact hab)
              · intro w hw
                rw [hfinal, (doc.mem_fields hc).1 hw, Option.some_or]
              · intro j hj
                rw [hfinal]
                cases hx : (doc.nodes.content c).get? j with
                | none => rw [Option.none_or]
                | some x => exact absurd rfl (hj (j, x) ((doc.mem_fields hc).2 hx))

end Class

end Document

/-! ## A run over a document -/

section Run

variable (doc : Document L)

theorem Document.root_lt_nodes : ∀ i, some doc.root = some i → i < doc.nodes.size := by
  intro i hi
  cases hi
  exact doc.root_lt

/-- The sections of the root start the scope. -/
theorem merge_root : ∃ byClass m,
    merge L OrderedMap.empty (some doc.root) doc.memory = .ok (byClass, m) ∧
      doc.nodes.Extends (L.nodes m) ∧ Ready (L.nodes m) (some doc.root) byClass ∧
      scopeOf (L.nodes m) byClass = doc.scope := by
  have hlt := doc.root_lt_nodes
  have hvalid : Valid (L.nodes doc.memory) OrderedMap.empty := fun key n hn => by cases hn
  obtain ⟨byClass, m, hmerge, hext, hvalid', hscope⟩ := merge_clone hvalid (some doc.root) hlt
    fun i hi => doc.sections i (hlt i hi)
  refine ⟨byClass, m, hmerge, hext, ⟨hvalid', ?_, ?_, ?_⟩, hscope⟩
  · exact fun i hi => Nat.lt_of_lt_of_le (hlt i hi) hext.size_le
  · exact fun i hi => hext.settled doc.closed (hlt i hi) (doc.sections i (hlt i hi)).toSettled
  · intro path _ c hc
    rw [hext.walk_eq doc.closed _ hlt] at hc
    have hclt := walk_lt doc.closed hlt path c hc
    exact (doc.sections c hclt).extends hext doc.closed hclt

/-- A run ends, and leaves in every leaf the value that the scope around its owner gives it. -/
theorem applyOverrides_run (attributes : List (Attribute V)) (before : Values V)
    (ha : ∀ address leaf, leafAt? "" attributes address = some leaf →
      Accepts doc.nodes (some doc.root) doc.scope leaf) :
    ∃ m after, applyOverrides L attributes doc.root doc.memory before = .ok (m, after) ∧
      ∀ address leaf, leafAt? "" attributes address = some leaf →
        after address = leafValue doc.nodes (some doc.root) doc.scope leaf (before address) := by
  have hlt := doc.root_lt_nodes
  obtain ⟨byClass, m, hmerge, hext, hready, hscope⟩ := merge_root doc
  obtain ⟨m', after, hrun, -, hafter⟩ := applyAttributes_spec attributes "" hready before
    fun address leaf hleaf => by
      rw [hscope]
      exact (ha address leaf hleaf).extends hext doc.closed hlt
  refine ⟨m', after, ?_, fun address leaf hleaf => ?_⟩
  · simp only [applyOverrides, bind, Except.bind, hmerge]
    exact hrun
  · rw [hafter address leaf hleaf, hscope, leafValue_extends hext doc.closed hlt]

variable {doc} {leaf : Leaf V}

/-- The prefixes of the path around the owner are the paths of the nodes above the owner. -/
theorem prefix_dropLast_iff {path owner : List String} (hne : owner ≠ []) :
    path <+: owner.dropLast ↔ path <+: owner ∧ path ≠ owner := by
  obtain ⟨above, name, rfl⟩ : ∃ above name, owner = above ++ [name] :=
    ⟨owner.dropLast, owner.getLast hne, (List.dropLast_append_getLast hne).symm⟩
  rw [List.dropLast_concat, List.prefix_concat_iff]
  constructor
  · intro h
    refine ⟨Or.inr h, ?_⟩
    rintro rfl
    have hlen := h.length_le
    simp at hlen
  · rintro ⟨rfl | h, hne⟩
    · exact absurd rfl hne
    · exact h

/-- Where aliases agree, the scope around an owner gives what the innermost section above gives. -/
theorem classText_eq_innermost (hagree : doc.AliasesAgree) (howner : leaf.owner ≠ [])
    (path : List String) : classText (descend doc.nodes (some doc.root) doc.scope path) leaf =
      doc.innermost path leaf.ownerClass leaf.descriptor.name := by
  rw [classText]
  by_cases hne : leaf.ownerClass = ""
  · rw [if_pos (Or.inr hne)]
    symm
    apply doc.innermost_eq_none
    intro p _
    rw [Document.gives, Document.section?, if_pos hne, Option.bind_none]
  · rw [if_neg (not_or.2 ⟨howner, hne⟩)]
    exact doc.scopeAt_get? hagree hne path leaf.descriptor.name

theorem WellTypedLeaf.accepts (h : WellTypedLeaf doc leaf) (hagree : doc.AliasesAgree) :
    Accepts doc.nodes (some doc.root) doc.scope leaf where
  byName := h.byName
  byClass path hpath x hx := by
    by_cases howner : leaf.owner = []
    · rw [classText_of_owner_nil howner] at hx
      cases hx
    · rw [classText_eq_innermost hagree howner] at hx
      obtain ⟨p, hp, hg, -⟩ := doc.exists_gives hx
      obtain ⟨hp', hne⟩ := (prefix_dropLast_iff howner).1 (hp.trans hpath)
      exact h.byClass p hp' hne x hg
  ownClass hne path hpath := by
    have hsame := doc.scopeAt_same hne path
    have hnone : doc.outermost path leaf.descriptor.className = none := by
      rw [Document.outermost, List.findSome?_eq_none_iff]
      intro p hp
      exact h.ownClass p (((List.mem_inits p path).1 hp).trans hpath)
    rw [hnone, Option.map_none, Option.map_eq_none_iff] at hsame
    exact hsame

/-- A leaf that has the value of the scope around its owner follows the order of precedence. -/
theorem leafPrecedence_leafValue (hagree : doc.AliasesAgree) (h : WellTypedLeaf doc leaf)
    (before : V) :
    LeafPrecedence doc leaf before
      (leafValue doc.nodes (some doc.root) doc.scope leaf before) := by
  have hbyClass : doc.byName leaf = none → leaf.owner ≠ [] →
      leafValue doc.nodes (some doc.root) doc.scope leaf before =
        ((doc.innermost leaf.owner.dropLast leaf.ownerClass leaf.descriptor.name).bind
          leaf.convert).getD before := by
    intro hnone howner
    have hwalk : doc.nodes.walk (some doc.root) (leaf.owner ++ [leaf.descriptor.name]) = none := hnone
    rw [leafValue, hwalk, ← classText_eq_innermost hagree howner]
  refine ⟨fun c hc => ?_, fun hnone path x hpath hne hx hinner => ?_, fun hnone hall => ?_⟩
  · obtain ⟨x, hx, hconvert⟩ := h.byName c hc
    obtain ⟨v, hv⟩ := Option.isSome_iff_exists.1 hconvert
    have hwalk : doc.nodes.walk (some doc.root) (leaf.owner ++ [leaf.descriptor.name]) = some c := hc
    rw [leafValue, hwalk]
    simp only [hx, Option.bind_some, hv, Option.getD_some]
  · have howner : leaf.owner ≠ [] := by
      intro h
      rw [h] at hpath hne
      exact hne (List.prefix_nil.1 hpath)
    have hpath' := (prefix_dropLast_iff howner).2 ⟨hpath, hne⟩
    have hin : doc.innermost leaf.owner.dropLast leaf.ownerClass leaf.descriptor.name = some x := by
      apply doc.innermost_eq_some hpath' hx
      intro q hpq hqp hq
      obtain ⟨hq, hqne⟩ := (prefix_dropLast_iff howner).1 hq
      exact hinner q hpq hqp hq hqne
    obtain ⟨v, hv⟩ := Option.isSome_iff_exists.1 (h.byClass path hpath hne x hx)
    rw [hbyClass hnone howner, hin, Option.bind_some, hv, Option.getD_some]
  · by_cases howner : leaf.owner = []
    · have hwalk : doc.nodes.walk (some doc.root) (leaf.owner ++ [leaf.descriptor.name]) = none :=
        hnone
      rw [leafValue, hwalk, classText_of_owner_nil howner]
      rfl
    · rw [hbyClass hnone howner, doc.innermost_eq_none, Option.bind_none, Option.getD_none]
      intro p hp
      obtain ⟨hp, hne⟩ := (prefix_dropLast_iff howner).1 hp
      exact hall p hp hne

end Run

/-! ## A configuration that shows two fields -/

section Probe

/-- Objects without a class in each other, under the names of a path. -/
def chain (path : List String) (attributes : List (Attribute V)) : List (Attribute V) :=
  path.foldr (fun name inner => [.object ⟨name, ""⟩ inner]) attributes

/-- At the end of a path, an object of a class with two fields. -/
def probe (path : List String) (name className a b : String) : List (Attribute String) :=
  chain path [.object ⟨name, className⟩ [.scalar ⟨a, ""⟩ some, .scalar ⟨b, ""⟩ some]]

/-- A leaf of the object at the end of the path. -/
def probeLeaf (path : List String) (name className field : String) : Leaf String :=
  ⟨path ++ [name], className, ⟨field, ""⟩, some⟩

theorem leafAt?_chain (ownerClass : String) (path : List String) (attributes : List (Attribute V))
    (address : List Nat) {leaf : Leaf V} (h : ∀ k, leafAt? k attributes address = some leaf) :
    leafAt? ownerClass (chain path attributes) (List.replicate path.length 0 ++ address) =
      some { leaf with owner := path ++ leaf.owner } := by
  induction path generalizing ownerClass with
  | nil => exact h ownerClass
  | cons name path ih =>
      show leafAt? ownerClass [.object ⟨name, ""⟩ (chain path attributes)]
        (0 :: (List.replicate path.length 0 ++ address)) = _
      rw [leafAt?_object_first, ih]
      rfl

theorem leaf_of_probe {ownerClass name className a b : String} {path : List String}
    {address : List Nat} {leaf : Leaf String}
    (h : leafAt? ownerClass (probe path name className a b) address = some leaf) :
    ∃ field, leaf = probeLeaf path name className field := by
  induction path generalizing ownerClass address leaf with
  | nil =>
      match address, h with
      | [0, 0], h =>
          cases h
          exact ⟨a, rfl⟩
      | [0, 1], h =>
          cases h
          exact ⟨b, rfl⟩
  | cons next path ih =>
      match address, h with
      | 0 :: address, h =>
          have hunder : (leafAt? "" (probe path name className a b) address).map
              (fun leaf => leaf.under next) = some leaf := h
          obtain ⟨inner, hinner, hleaf⟩ := Option.map_eq_some_iff.1 hunder
          obtain ⟨field, hfield⟩ := ih hinner
          exact ⟨field, by rw [← hleaf, hfield]; rfl⟩

variable (doc : Document L)

/-- Some name is not in the document at the end of a path. -/
theorem exists_fresh (path : List String) : ∃ name, doc.at? (path ++ [name]) = none := by
  have hsnoc : ∀ name, doc.at? (path ++ [name]) = doc.nodes.nested (doc.at? path) name :=
    fun name => NodeStore.walk_append doc.nodes (some doc.root) path [name]
  cases hc : doc.at? path with
  | none => exact ⟨"", by rw [hsnoc, hc]; rfl⟩
  | some c =>
      obtain ⟨name, hname⟩ :=
        Infinite.exists_notMem_finset ((doc.nodes.value c).pairs.map Prod.fst).toFinset
      refine ⟨name, ?_⟩
      have hnone : doc.nodes.find? c name = none := by
        rw [NodeStore.find?, List.lookup_eq_none_iff]
        intro p hp
        have hne : name ≠ p.1 := by
          rintro rfl
          exact hname (List.mem_toFinset.2 (List.mem_map_of_mem hp))
        simpa using hne
      rw [hsnoc, hc, NodeStore.nested_some, hnone]

variable {doc} {path : List String} {name className : String}

theorem byName_probeLeaf (h : doc.at? (path ++ [name]) = none) (field : String) :
    doc.byName (probeLeaf path name className field) = none := by
  show doc.nodes.walk (some doc.root) ((path ++ [name]) ++ [field]) = none
  rw [NodeStore.walk_append]
  have hwalk : doc.nodes.walk (some doc.root) (path ++ [name]) = none := h
  rw [hwalk, NodeStore.walk_none]

theorem wellTyped_probe (h : doc.at? (path ++ [name]) = none) (a b : String) :
    WellTyped doc (probe path name className a b) := by
  intro address leaf hleaf
  obtain ⟨field, rfl⟩ := leaf_of_probe hleaf
  refine ⟨fun c hc => ?_, fun _ _ _ _ _ => rfl, fun _ _ => rfl⟩
  rw [byName_probeLeaf h] at hc
  cases hc

theorem accepts_probe (h : doc.at? (path ++ [name]) = none) (field : String) :
    Accepts doc.nodes (some doc.root) doc.scope (probeLeaf path name className field) := by
  refine ⟨fun c hc => ?_, fun _ _ _ _ => rfl, fun hne => absurd rfl hne⟩
  have hnone : doc.byName (probeLeaf path name className field) = some c := hc
  rw [byName_probeLeaf h] at hnone
  cases hnone

/-- The value of a field that is not set by name is what the scope says of the class. -/
theorem leafValue_probeLeaf (h : doc.at? (path ++ [name]) = none) (hne : className ≠ "")
    (field old : String) :
    leafValue doc.nodes (some doc.root) doc.scope (probeLeaf path name className field) old =
      ((doc.scopeAt path (":" ++ className)).bind fun m => m.get? field).getD old := by
  have hbyName : doc.byName (probeLeaf path name className field) = none := byName_probeLeaf h field
  have hnone : doc.nodes.walk (some doc.root) ((probeLeaf path name className field).owner ++
      [(probeLeaf path name className field).descriptor.name]) = none := hbyName
  have hdrop : (probeLeaf path name className field).owner.dropLast = path := by
    simp [probeLeaf]
  have hguard : ¬ ((probeLeaf path name className field).owner = [] ∨
      (probeLeaf path name className field).ownerClass = "") := by
    simp [probeLeaf, hne]
  rw [leafValue, hnone, hdrop, classText, if_neg hguard]
  show (Option.bind (Option.bind _ _) some).getD old = _
  rw [Option.bind_fun_some]
  rfl

/-- The order of precedence gives the field what the innermost section gives. -/
theorem LeafPrecedence.probeLeaf_eq {before after field x : String}
    (h : doc.at? (path ++ [name]) = none) (hx : doc.innermost path className field = some x)
    (hp : LeafPrecedence doc (probeLeaf path name className field) before after) : after = x := by
  obtain ⟨p, hprefix, hg, hinner⟩ := doc.exists_gives hx
  have howner : (probeLeaf path name className field).owner ≠ [] := by simp [probeLeaf]
  have hiff : ∀ q, q <+: path ↔ q <+: (probeLeaf path name className field).owner ∧
      q ≠ (probeLeaf path name className field).owner := by
    intro q
    rw [← prefix_dropLast_iff howner]
    simp [probeLeaf]
  obtain ⟨hp', hne⟩ := (hiff p).1 hprefix
  have hafter := hp.byClass (byName_probeLeaf h field) p x hp' hne hg fun q hpq hqp hq hqne =>
    hinner q hpq hqp ((hiff q).2 ⟨hq, hqne⟩)
  exact Option.some.inj hafter

/-- A field of the outermost section is given by the innermost section that gives it. -/
theorem innermost_ne_none {n : NodeId} {field : String}
    (hn : doc.outermost path className = some n) (hfield : doc.nodes.find? n field ≠ none) :
    ∃ x, doc.innermost path className field = some x := by
  obtain ⟨p, hp, hsec⟩ := List.exists_of_findSome?_eq_some hn
  obtain ⟨c, hc⟩ := Option.ne_none_iff_exists'.1 hfield
  obtain ⟨x, hx⟩ := (doc.isSection hsec).2.text_of_find? hc
  have hg : doc.gives p className field = some x := by
    rw [Document.gives, hsec, Option.bind_some, NodeStore.get?_content, hc, Option.bind_some, hx]
  rw [← Option.ne_none_iff_exists']
  intro hnone
  rw [Document.innermost, List.findSome?_eq_none_iff] at hnone
  rw [hnone p (List.mem_reverse.2 hp)] at hg
  cases hg

/-- The leaves of the fields of a probe. -/
theorem leafAt?_probe (path : List String) (name className a b : String) :
    leafAt? "" (probe path name className a b) (List.replicate path.length 0 ++ [0, 0]) =
        some (probeLeaf path name className a) ∧
      leafAt? "" (probe path name className a b) (List.replicate path.length 0 ++ [0, 1]) =
        some (probeLeaf path name className b) := by
  have ha : ∀ k, leafAt? k (probe [] name className a b) [0, 0] =
      some (probeLeaf [] name className a) := fun _ => rfl
  have hb : ∀ k, leafAt? k (probe [] name className a b) [0, 1] =
      some (probeLeaf [] name className b) := fun _ => rfl
  exact ⟨leafAt?_chain "" path _ [0, 0] ha, leafAt?_chain "" path _ [0, 1] hb⟩

/-- Fields that share a node take one value, so where precedence holds it gives them one text. -/
theorem aliasesAgree_of_precedence (h : ∀ (attributes : List (Attribute String)) before,
    WellTyped doc attributes → ∃ m after,
      applyOverrides L attributes doc.root doc.memory before = .ok (m, after) ∧
        FollowsPrecedence doc attributes before after) : doc.AliasesAgree := by
  intro path className n hn a b hab
  rcases hab with rfl | ⟨hfind, hne⟩
  · rfl
  · have hclass : className ≠ "" := by
      rintro rfl
      have hnone : doc.outermost path "" = none := by
        rw [Document.outermost, List.findSome?_eq_none_iff]
        exact fun _ _ => rfl
      rw [hnone] at hn
      cases hn
    obtain ⟨name, hname⟩ := exists_fresh doc path
    obtain ⟨x, hx⟩ := innermost_ne_none hn hne
    obtain ⟨y, hy⟩ := innermost_ne_none hn (hfind ▸ hne)
    obtain ⟨m, after, hrun, hprecedence⟩ := h (probe path name className a b) (fun _ => "")
      (wellTyped_probe hname a b)
    obtain ⟨m', after', hrun', hvalue⟩ := applyOverrides_run doc (probe path name className a b)
      (fun _ => "") fun address leaf hleaf => by
        obtain ⟨field, rfl⟩ := leaf_of_probe hleaf
        exact accepts_probe hname field
    rw [hrun] at hrun'
    cases hrun'
    obtain ⟨ha, hb⟩ := leafAt?_probe path name className a b
    -- The run leaves one value in both fields, and precedence wants `x` in one and `y` in the other.
    have hcell : ((doc.scopeAt path (":" ++ className)).bind fun m => m.get? a) =
        (doc.scopeAt path (":" ++ className)).bind fun m => m.get? b := by
      have hsame := doc.scopeAt_same hclass path
      rw [hn, Option.map_some] at hsame
      obtain ⟨m, hm, hmn⟩ := Option.map_eq_some_iff.1 hsame
      rw [hm, Option.bind_some, Option.bind_some]
      apply m.get?_eq_of_same
      rw [hmn]
      exact Or.inr ⟨hfind, hne⟩
    have hxa := LeafPrecedence.probeLeaf_eq hname hx (hprecedence _ _ ha)
    have hyb := LeafPrecedence.probeLeaf_eq hname hy (hprecedence _ _ hb)
    rw [hvalue _ _ ha, leafValue_probeLeaf hname hclass, hcell] at hxa
    rw [hvalue _ _ hb, leafValue_probeLeaf hname hclass] at hyb
    rw [hx, hy, ← hxa, ← hyb]

end Probe

/-- **With any library, a document is applied to every configuration by precedence exactly when
precedence gives the same text to fields that share a node in the outermost section for their
class.** -/
theorem applyOverrides_precedence_iff (L : NodeLibrary) (doc : Document L) :
    (∀ (V : Type) (attributes : List (Attribute V)) (before : Values V), WellTyped doc attributes →
      ∃ m after, applyOverrides L attributes doc.root doc.memory before = .ok (m, after) ∧
        FollowsPrecedence doc attributes before after) ↔ doc.AliasesAgree := by
  constructor
  · exact fun h => aliasesAgree_of_precedence (h String)
  · intro hagree V attributes before htyped
    obtain ⟨m, after, hrun, hvalue⟩ := applyOverrides_run doc attributes before
      fun address leaf hleaf => (htyped address leaf hleaf).accepts hagree
    refine ⟨m, after, hrun, fun address leaf hleaf => ?_⟩
    rw [hvalue address leaf hleaf]
    exact leafPrecedence_leafValue hagree (htyped address leaf hleaf) (before address)

/-- Precedence holds in particular when no section has an alias. -/
theorem Document.aliasesAgree_of_distinct {doc : Document L}
    (h : ∀ path className n, doc.section? path className = some n → ∀ a b,
      (doc.nodes.content n).same a b → a = b) : doc.AliasesAgree := by
  intro path className n hn a b hab
  obtain ⟨p, -, hsec⟩ := List.exists_of_findSome?_eq_some hn
  rw [h p className n hsec a b hab]

/-! ## A section with an alias -/

/-- The nodes of the document
```
:C: {x: &v 1, y: *v}
a:
  :C: {x: 2}
```
-/
def aliasNodes : StoredNodes where
  size := 6
  value n :=
    match n with
    | 0 => .map true [(":C", 1), ("a", 3)]
    | 1 => .map true [("x", 2), ("y", 2)]
    | 2 => .scalar "1"
    | 3 => .map true [(":C", 4)]
    | 4 => .map true [("x", 5)]
    | _ => .scalar "2"
  closed := by
    unfold NodeStore.Closed
    decide
  later := by decide

theorem hasSections_aliasNodes (i : NodeId) (hi : i < 6) : HasSections aliasNodes.toNodeStore i := by
  have houter : aliasNodes.IsSection 1 := ⟨_, rfl, by simp [aliasNodes]⟩
  have hinner : aliasNodes.IsSection 4 := ⟨_, rfl, by simp [aliasNodes]⟩
  have hheld : ∀ i < 6, (aliasNodes.value i).held = true ∧
      (∀ p ∈ (aliasNodes.value i).pairs, (aliasNodes.value p.2).held = true) ∧
      ((aliasNodes.value i).pairs.map Prod.fst).Nodup ∧
      ∀ p ∈ (aliasNodes.value i).pairs, isClassKey p.1 = true → p.2 = 1 ∨ p.2 = 4 := by decide
  obtain ⟨hself, hpairs, hnodup, hclasses⟩ := hheld i hi
  refine ⟨⟨hself, hpairs⟩, hnodup, fun p hp hclass => ?_⟩
  rcases hclasses p hp hclass with h | h
  · rw [h]
    exact houter
  · rw [h]
    exact hinner

def aliasDocument : Document storedNodes where
  memory := aliasNodes
  root := 0
  root_lt := by decide
  sections := hasSections_aliasNodes

/-- An object `b` of class `C`, with the fields `x` and `y`, in an object `a`. -/
def aliasConfig : List (Attribute String) := probe ["a"] "b" "C" "x" "y"

/-- The inner section gives `x` alone, and `y` is changed with it: it ends with `2`, where precedence
gives it the `1` of the outer section. -/
theorem applyOverrides_alias :
    WellTyped aliasDocument aliasConfig ∧
      ¬ ∃ m after, applyOverrides storedNodes aliasConfig aliasDocument.root aliasDocument.memory
          (fun _ => "0") = .ok (m, after) ∧
        FollowsPrecedence aliasDocument aliasConfig (fun _ => "0") after := by
  have hname : aliasDocument.at? (["a"] ++ ["b"]) = none := by decide
  refine ⟨wellTyped_probe hname "x" "y", ?_⟩
  rintro ⟨m, after, hrun, hprecedence⟩
  have hy := (leafAt?_probe ["a"] "b" "C" "x" "y").2
  have hx : aliasDocument.innermost ["a"] "C" "y" = some "1" := by decide
  have hone : after [0, 0, 1] = "1" :=
    LeafPrecedence.probeLeaf_eq hname hx (hprecedence _ _ hy)
  have htwo : ((applyOverrides storedNodes aliasConfig aliasDocument.root aliasDocument.memory
      (fun _ => "0")).toOption.map fun r => r.2 [0, 0, 1]) = some "2" := by decide
  rw [hrun] at htwo
  have htwo' : after [0, 0, 1] = "2" := Option.some.inj htwo
  rw [hone] at htwo'
  exact absurd htwo' (by decide)

end JayBeams.Config
