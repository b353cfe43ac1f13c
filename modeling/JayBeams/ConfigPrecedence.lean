import JayBeams.ConfigObject
import Mathlib.Data.List.Infix
import Mathlib.Data.Fintype.EquivFin

/-!
# Which setting a configuration value takes

A document may give a value by its name, in the place that the names of the objects above lead to,
and by the class of the object that owns it, in an override section of any node on the way to this
object.

`applyAttributes_spec` says what a run of `applyAttributes` leaves in every leaf: the text by name,
else the text under the class of the owner in the scope around the owner, else the old value. The
scope is the one that `Scope.enter` builds along the way. It follows sections in the order they are
met, and where two fields of a section are one node, a write to one of them shows in both.
-/

set_option autoImplicit false

namespace JayBeams.Config

open Yaml Containers

variable {V : Type}

/-! ## Scopes along a path -/

theorem isClassKey_append (className : String) : isClassKey (":" ++ className) = true := by
  simp [isClassKey, String.toList_append]

/-- The scope at the end of a path of names that starts at a node. -/
noncomputable def descend (s : NodeStore) : Option NodeId → Scope → List String → Scope
  | _, scope, [] => scope
  | n, scope, name :: path => descend s (s.nested n name) (scope.enter s (s.nested n name)) path

@[simp] theorem descend_nil (s : NodeStore) (n : Option NodeId) (scope : Scope) :
    descend s n scope [] = scope := rfl

@[simp] theorem descend_cons (s : NodeStore) (n : Option NodeId) (scope : Scope) (name : String)
    (path : List String) : descend s n scope (name :: path) =
      descend s (s.nested n name) (scope.enter s (s.nested n name)) path := rfl

/-- What a scope says about a leaf, under the class of the owner. The object that is configured has
no class itself. -/
def classText (scope : Scope) (leaf : Leaf V) : Option String :=
  if leaf.owner = [] ∨ leaf.ownerClass = "" then none
  else (scope (":" ++ leaf.ownerClass)).bind fun m => m.get? leaf.descriptor.name

/-- The value that a leaf takes. -/
noncomputable def leafValue (s : NodeStore) (n : Option NodeId) (scope : Scope) (leaf : Leaf V)
    (old : V) : V :=
  match s.walk n (leaf.owner ++ [leaf.descriptor.name]) with
  | some c => ((s.text c).bind leaf.convert).getD old
  | none => ((classText (descend s n scope leaf.owner.dropLast) leaf).bind leaf.convert).getD old

/-- Every text that a leaf may be given converts to its type, and no section is for the class of the
leaf itself: the class of a scalar has no fields. -/
structure Accepts (s : NodeStore) (n : Option NodeId) (scope : Scope) (leaf : Leaf V) : Prop where
  byName : ∀ c, s.walk n (leaf.owner ++ [leaf.descriptor.name]) = some c →
    ∃ x, s.text c = some x ∧ (leaf.convert x).isSome = true
  byClass : ∀ path, path <+: leaf.owner.dropLast → ∀ x,
    classText (descend s n scope path) leaf = some x → (leaf.convert x).isSome = true
  ownClass : leaf.descriptor.className ≠ "" → ∀ path, path <+: leaf.owner →
    descend s n scope path (":" ++ leaf.descriptor.className) = none

/-- The maps below a node hold sections under their class keys. -/
def SectionsBelow (s : NodeStore) (n : Option NodeId) : Prop :=
  ∀ path, path ≠ [] → ∀ c, s.walk n path = some c → HasSections s c

/-- What a run of `applyAttributes` starts from. -/
structure Ready (s : NodeStore) (n : Option NodeId) (byClass : ClassOverrides) : Prop where
  valid : Valid s byClass
  lt_size : ∀ i, n = some i → i < s.size
  settled : ∀ i, n = some i → s.Settled i
  sections : SectionsBelow s n

section Extension

variable {s t : NodeStore} {n : Option NodeId}

theorem walk_lt (hs : s.Closed) (hn : ∀ i, n = some i → i < s.size) (path : List String) :
    ∀ c, s.walk n path = some c → c < s.size := by
  induction path generalizing n with
  | nil => exact hn
  | cons name path ih => exact ih (hs.nested_lt hn)

theorem Ready.extends {byClass : ClassOverrides} (h : Ready s n byClass) (hs : s.Closed)
    (hext : s.Extends t) : Ready t n byClass where
  valid := hext.valid hs h.valid
  lt_size i hi := Nat.lt_of_lt_of_le (h.lt_size i hi) hext.size_le
  settled i hi := hext.settled hs (h.lt_size i hi) (h.settled i hi)
  sections path hpath c hc := by
    rw [hext.walk_eq hs n h.lt_size] at hc
    exact (h.sections path hpath c hc).extends hext hs (walk_lt hs h.lt_size path c hc)

theorem enter_extends (h : s.Extends t) (hs : s.Closed) (hn : ∀ i, n = some i → i < s.size)
    (scope : Scope) : scope.enter t n = scope.enter s n := by
  cases n with
  | none => rfl
  | some i =>
      have hagree := h.agreeOn hs (hn i rfl)
      funext key
      have hsec : t.classSection (some i) key = s.classSection (some i) key := by
        rw [NodeStore.classSection, NodeStore.classSection, hagree.find?_eq]
      rw [Scope.enter, Scope.enter, hsec]
      cases hc : s.classSection (some i) key with
      | none => rfl
      | some c =>
          have hfind : s.find? i key = some c := by
            rw [NodeStore.classSection] at hc
            split at hc
            · exact hc
            · cases hc
          have hlt := hs i (hn i rfl) c (NodeStore.mem_refs_of_find? hfind)
          exact congrArg some (overlay_congr (h.agreeOn hs hlt) (scope key))

theorem descend_extends (h : s.Extends t) (hs : s.Closed) (hn : ∀ i, n = some i → i < s.size)
    (scope : Scope) (path : List String) : descend t n scope path = descend s n scope path := by
  induction path generalizing n scope with
  | nil => rfl
  | cons name path ih =>
      rw [descend_cons, descend_cons, h.nested_eq n hn, enter_extends h hs (hs.nested_lt hn)]
      exact ih (hs.nested_lt hn) _

theorem text_extends (h : s.Extends t) {c : NodeId} (hc : c < s.size) : t.text c = s.text c := by
  rw [NodeStore.text, NodeStore.text, h.value_eq c hc]

/-- New nodes change neither what a leaf accepts nor what it takes. -/
theorem Accepts.extends (h : s.Extends t) (hs : s.Closed) (hn : ∀ i, n = some i → i < s.size)
    {scope : Scope} {leaf : Leaf V} (ha : Accepts s n scope leaf) : Accepts t n scope leaf where
  byName c hc := by
    rw [h.walk_eq hs n hn] at hc
    rw [text_extends h (walk_lt hs hn _ c hc)]
    exact ha.byName c hc
  byClass path hpath x hx := by
    rw [descend_extends h hs hn] at hx
    exact ha.byClass path hpath x hx
  ownClass hne path hpath := by
    rw [descend_extends h hs hn]
    exact ha.ownClass hne path hpath

theorem leafValue_extends (h : s.Extends t) (hs : s.Closed) (hn : ∀ i, n = some i → i < s.size)
    (scope : Scope) (leaf : Leaf V) (old : V) :
    leafValue t n scope leaf old = leafValue s n scope leaf old := by
  rw [leafValue, leafValue, h.walk_eq hs n hn, descend_extends h hs hn]
  cases hc : s.walk n (leaf.owner ++ [leaf.descriptor.name]) with
  | none => rfl
  | some c => simp only [text_extends h (walk_lt hs hn _ c hc)]

end Extension

/-! ## A section in the place of a node by name -/

section Section

variable {s : NodeStore} {r : NodeId}

/-- No names lead on from here, and there are no sections. -/
def Flat (s : NodeStore) (n : Option NodeId) : Prop := ∀ c, n = some c → ∃ x, s.text c = some x

theorem Flat.nested {n : Option NodeId} (h : Flat s n) (name : String) : s.nested n name = none := by
  cases n with
  | none => rfl
  | some c =>
      obtain ⟨x, hx⟩ := h c rfl
      exact NodeStore.nested_of_text hx

theorem Flat.walk {n : Option NodeId} (h : Flat s n) {path : List String} (hpath : path ≠ []) :
    s.walk n path = none := by
  cases path with
  | nil => exact absurd rfl hpath
  | cons name path => rw [NodeStore.walk_cons, h.nested, NodeStore.walk_none]

theorem Flat.enter {n : Option NodeId} (h : Flat s n) (scope : Scope) : scope.enter s n = scope := by
  cases n with
  | none => rfl
  | some c =>
      obtain ⟨x, hx⟩ := h c rfl
      apply enter_of_pairs_nil
      rw [NodeStore.text_eq_some_iff.1 hx]
      rfl

theorem descend_none (s : NodeStore) (scope : Scope) (path : List String) :
    descend s none scope path = scope := by
  induction path with
  | nil => rfl
  | cons name path ih => rw [descend_cons, NodeStore.nested_none, enter_none, ih]

theorem Flat.descend {n : Option NodeId} (h : Flat s n) (scope : Scope) (path : List String) :
    descend s n scope path = scope := by
  cases path with
  | nil => rfl
  | cons name path => rw [descend_cons, h.nested, enter_none, descend_none]

theorem flat_nested_section (h : s.IsSection r) (name : String) :
    Flat s (s.nested (some r) name) := by
  intro c hc
  rw [NodeStore.nested_some] at hc
  exact h.text_of_find? hc

theorem descend_section (h : s.IsSection r) (scope : Scope) (path : List String) :
    descend s (some r) scope path = scope := by
  cases path with
  | nil => rfl
  | cons name path =>
      have hflat := flat_nested_section h name
      rw [descend_cons, hflat.enter, hflat.descend]

theorem walk_section (h : s.IsSection r) {path : List String} (hpath : path ≠ []) (name : String) :
    s.walk (some r) (path ++ [name]) = none := by
  cases path with
  | nil => exact absurd rfl hpath
  | cons first path =>
      rw [List.cons_append, NodeStore.walk_cons]
      exact (flat_nested_section h first).walk (by simp)

/-- A scalar is loaded as it is and holds no sections. -/
theorem hasSections_of_text {c : NodeId} {x : String} (h : s.text c = some x) :
    HasSections s c := by
  have hv := NodeStore.text_eq_some_iff.1 h
  have hpairs : (s.value c).pairs = [] := by
    rw [hv]
    rfl
  refine ⟨⟨by rw [hv]; rfl, fun p hp => ?_⟩, by rw [hpairs]; exact List.nodup_nil,
    fun p hp => ?_⟩
  · rw [hpairs] at hp
    cases hp
  · rw [hpairs] at hp
    cases hp

theorem sectionsBelow_section (h : s.IsSection r) : SectionsBelow s (some r) := by
  intro path hpath c hc
  cases path with
  | nil => exact absurd rfl hpath
  | cons name path =>
      have hflat := flat_nested_section h name
      rw [NodeStore.walk_cons] at hc
      cases path with
      | nil =>
          obtain ⟨x, hx⟩ := hflat c hc
          exact hasSections_of_text hx
      | cons next path =>
          rw [hflat.walk (by simp)] at hc
          cases hc

end Section

/-! ## The attributes of an object, seen from the object around -/

section Under

variable {s : NodeStore} {n : Option NodeId} {scope : Scope} {leaf : Leaf V} {name : String}

theorem classText_under (h : leaf.owner ≠ []) (scope : Scope) :
    classText scope (leaf.under name) = classText scope leaf := by
  simp [classText, Leaf.under, h]

theorem classText_of_owner_nil (h : leaf.owner = []) (scope : Scope) :
    classText scope leaf = none := by
  simp [classText, h]

theorem classText_under_class (h : leaf.ownerClass ≠ "") (scope : Scope) :
    classText scope (leaf.under name) =
      (scope (":" ++ leaf.ownerClass)).bind fun m => m.get? leaf.descriptor.name := by
  simp [classText, Leaf.under, h]

theorem dropLast_under (h : leaf.owner ≠ []) :
    (leaf.under name).owner.dropLast = name :: leaf.owner.dropLast := by
  obtain ⟨a, l, hl⟩ := List.exists_cons_of_ne_nil h
  simp [Leaf.under, hl]

/-- What a leaf accepts in an object it accepts in the node that has the name of the object. -/
theorem Accepts.ofUnder (h : Accepts s n scope (leaf.under name)) :
    Accepts s (s.nested n name) (scope.enter s (s.nested n name)) leaf where
  byName := h.byName
  byClass path hpath x hx := by
    by_cases howner : leaf.owner = []
    · rw [classText_of_owner_nil howner] at hx
      cases hx
    · apply h.byClass (name :: path)
      · rw [dropLast_under howner]
        exact List.cons_prefix_cons.2 ⟨rfl, hpath⟩
      · rw [classText_under howner, descend_cons]
        exact hx
  ownClass hne path hpath :=
    h.ownClass hne (name :: path) (List.cons_prefix_cons.2 ⟨rfl, hpath⟩)

/-- What a leaf accepts in an object it accepts in a section for the class of the object. -/
theorem Accepts.ofSection {r : NodeId} (h : Accepts s n scope (leaf.under name))
    (hr : s.IsSection r) (hclass : leaf.owner = [] →
      leaf.ownerClass ≠ "" ∧ scope (":" ++ leaf.ownerClass) = some (s.content r)) :
    Accepts s (some r) scope leaf where
  byName c hc := by
    by_cases howner : leaf.owner = []
    · rw [howner, List.nil_append, NodeStore.walk_cons, NodeStore.nested_some,
        NodeStore.walk_nil] at hc
      obtain ⟨x, hx⟩ := hr.text_of_find? hc
      obtain ⟨hne, hscope⟩ := hclass howner
      refine ⟨x, hx, h.byClass [] List.nil_prefix x ?_⟩
      rw [descend_nil, classText_under_class hne, hscope, Option.bind_some, NodeStore.get?_content,
        hc, Option.bind_some, hx]
    · rw [walk_section hr howner] at hc
      cases hc
  byClass path hpath x hx := by
    rw [descend_section hr] at hx
    by_cases howner : leaf.owner = []
    · rw [classText_of_owner_nil howner] at hx
      cases hx
    · apply h.byClass [] List.nil_prefix
      rw [descend_nil, classText_under howner]
      exact hx
  ownClass hne path _ := by
    rw [descend_section hr]
    exact h.ownClass hne [] List.nil_prefix

/-- A section that applies outside applies inside as well, or what is written over it does. -/
theorem enter_ne_none {key : String} {m : SharedMap String String} (h : scope key = some m)
    (field : String) (hm : m.get? field ≠ none) :
    ∃ m', scope.enter s n key = some m' ∧ m'.get? field ≠ none := by
  rw [Scope.enter]
  cases s.classSection n key with
  | none => exact ⟨m, h, hm⟩
  | some c =>
      refine ⟨_, rfl, ?_⟩
      rw [h, overlay]
      exact m.get?_writeAll_ne_none _ hm

theorem descend_ne_none {key : String} {m : SharedMap String String} (h : scope key = some m)
    (field : String) (hm : m.get? field ≠ none) (path : List String) :
    ∃ m', descend s n scope path key = some m' ∧ m'.get? field ≠ none := by
  induction path generalizing n scope m with
  | nil => exact ⟨m, h, hm⟩
  | cons name path ih =>
      obtain ⟨m', h', hm'⟩ := enter_ne_none (s := s) (n := s.nested n name) h field hm
      exact ih h' hm'

/-- What no scope on the way says, the scope at the start does not say. -/
theorem classText_eq_none (path : List String)
    (h : classText (descend s n scope path) leaf = none) : classText scope leaf = none := by
  rw [classText] at h ⊢
  split
  · rfl
  · next hclass =>
      rw [if_neg hclass] at h
      cases hm : scope (":" ++ leaf.ownerClass) with
      | none => rfl
      | some m =>
          rw [Option.bind_some]
          by_contra hne
          obtain ⟨m', hm', hne'⟩ := descend_ne_none (s := s) (n := n) hm leaf.descriptor.name hne path
          rw [hm', Option.bind_some] at h
          exact hne' h

/-- **A leaf takes its value in two steps**: first what the section for the class of the object says
about the fields of the object, then what the node under the name of the object says. -/
theorem leafValue_under {old mid : V} (h : Accepts s n scope (leaf.under name))
    (hfield : leaf.owner = [] →
      mid = ((classText scope (leaf.under name)).bind leaf.convert).getD old)
    (hdeep : leaf.owner ≠ [] → classText scope leaf = none → mid = old) :
    leafValue s n scope (leaf.under name) old =
      leafValue s (s.nested n name) (scope.enter s (s.nested n name)) leaf mid := by
  rw [leafValue, leafValue]
  show (match s.walk (s.nested n name) (leaf.owner ++ [leaf.descriptor.name]) with
    | some c => _
    | none => _) = _
  cases hwalk : s.walk (s.nested n name) (leaf.owner ++ [leaf.descriptor.name]) with
  | some c =>
      obtain ⟨x, hx, hconvert⟩ := h.byName c hwalk
      obtain ⟨v, hv⟩ := Option.isSome_iff_exists.1 hconvert
      have hv' : leaf.convert x = some v := hv
      simp only [hx, Option.bind_some]
      show ((leaf.convert x)).getD old = _
      rw [hv', Option.getD_some, Option.getD_some]
  | none =>
      by_cases howner : leaf.owner = []
      · have hdrop : (leaf.under name).owner.dropLast = [] := by simp [Leaf.under, howner]
        simp only [hdrop, descend_nil, classText_of_owner_nil howner, Option.bind_none,
          Option.getD_none]
        exact (hfield howner).symm
      · simp only [dropLast_under howner, descend_cons, classText_under howner]
        cases htext : classText (descend s (s.nested n name) (scope.enter s (s.nested n name))
            leaf.owner.dropLast) leaf with
        | none =>
            have hstart : classText scope leaf = none :=
              classText_eq_none (s := s) (n := n) (name :: leaf.owner.dropLast) htext
            exact (hdeep howner hstart).symm
        | some x =>
            have hconvert := h.byClass (leaf.under name).owner.dropLast (List.prefix_refl _) x (by
              rw [dropLast_under howner, classText_under howner]
              exact htext)
            obtain ⟨v, hv⟩ := Option.isSome_iff_exists.1 hconvert
            have hv' : leaf.convert x = some v := hv
            simp only [Option.bind_some]
            show (leaf.convert x).getD old = _
            rw [hv', Option.getD_some, Option.getD_some]

end Under

/-! ## A run -/

section Run

variable {L : NodeLibrary} {m : L.Memory} {s : NodeStore} {n : Option NodeId}
  {byClass : ClassOverrides}

/-- Applying a node and class overrides to the attributes of an object leaves in every leaf the value
it takes. -/
def Applies (ownerClass : String) (attributes : List (Attribute V)) (m : L.Memory)
    (n : Option NodeId) (byClass : ClassOverrides) (values : Values V) : Prop :=
  ∃ m' after, applyAttributes L attributes n byClass m values = .ok (m', after) ∧
    (L.nodes m).Extends (L.nodes m') ∧
    ∀ address leaf, leafAt? ownerClass attributes address = some leaf →
      after address = leafValue (L.nodes m) n (scopeOf (L.nodes m) byClass) leaf (values address)

/-- What the first attribute takes from the section of its class. -/
def applyClass (L : NodeLibrary) (i : Attribute V) (byClass : ClassOverrides) (m : L.Memory)
    (values : Values V) : Except Failure (L.Memory × Values V) :=
  if i.className ≠ "" then
    match byClass.find? (":" ++ i.className) with
    | some n => i.applyOverrides L (some n) byClass m values
    | none => .ok (m, values)
  else .ok (m, values)

theorem applyAttributes_cons {i : Attribute V} {attributes : List (Attribute V)} {values : Values V}
    {m₁ m₂ m₃ m₄ : L.Memory} {first₁ first₂ rest : Values V} {newScope : ClassOverrides}
    (hclass : applyClass L i byClass m values.first = .ok (m₁, first₁))
    (hmerge : merge L (clone L byClass m₁).1 (L.nested (clone L byClass m₁).2 n i.name)
      (clone L byClass m₁).2 = .ok (newScope, m₂))
    (hname : i.applyOverrides L (L.nested (clone L byClass m₁).2 n i.name) newScope m₂ first₁ =
      .ok (m₃, first₂))
    (hrest : applyAttributes L attributes n byClass m₃ values.rest = .ok (m₄, rest)) :
    applyAttributes L (i :: attributes) n byClass m values =
      .ok (m₄, Values.cons first₂ rest) := by
  rw [applyClass] at hclass
  simp only [applyAttributes, bind, Except.bind]
  by_cases hne : i.className ≠ ""
  · rw [if_pos hne] at hclass ⊢
    cases hr : byClass.find? (":" ++ i.className) with
    | some r =>
        rw [hr] at hclass
        simp only [hclass, hmerge, hname, hrest]
    | none =>
        rw [hr] at hclass
        cases hclass
        simp only [hmerge, hname, hrest]
  · rw [if_neg hne] at hclass ⊢
    cases hclass
    simp only [hmerge, hname, hrest]

/-- Entering the node under a name, from class overrides that are ready. -/
theorem Ready.enter (h : Ready (L.nodes m) n byClass) (name : String) :
    ∃ newScope m', merge L (clone L byClass m).1 (L.nested (clone L byClass m).2 n name)
        (clone L byClass m).2 = .ok (newScope, m') ∧
      L.nested (clone L byClass m).2 n name = (L.nodes m).nested n name ∧
      (L.nodes m).Extends (L.nodes m') ∧
      Ready (L.nodes m') ((L.nodes m).nested n name) newScope ∧
      scopeOf (L.nodes m') newScope =
        (scopeOf (L.nodes m) byClass).enter (L.nodes m) ((L.nodes m).nested n name) := by
  have hs := L.closed m
  obtain ⟨-, hclone, -⟩ := separated_clone h.valid
  have hready := h.extends hs hclone
  have hnested : L.nested (clone L byClass m).2 n name = (L.nodes m).nested n name :=
    (NodeLibrary.nested_eq hready.lt_size hready.settled name).trans
      (hclone.nested_eq n h.lt_size name)
  have hlt : ∀ i, (L.nodes m).nested n name = some i → i < (L.nodes m).size :=
    hs.nested_lt h.lt_size
  have hsections : ∀ i, (L.nodes m).nested n name = some i → HasSections (L.nodes m) i :=
    fun i hi => h.sections [name] (by simp) i hi
  obtain ⟨newScope, m', hmerge, hext, hvalid, hscope⟩ :=
    merge_clone h.valid ((L.nodes m).nested n name) hlt hsections
  refine ⟨newScope, m', by rw [hnested]; exact hmerge, hnested, hext, ?_, hscope⟩
  refine ⟨hvalid, fun i hi => Nat.lt_of_lt_of_le (hlt i hi) hext.size_le, fun i hi =>
    hext.settled hs (hlt i hi) (hsections i hi).toSettled, ?_⟩
  intro path hpath c hc
  rw [hext.walk_eq hs _ hlt] at hc
  exact (h.sections (name :: path) (by simp) c hc).extends hext hs (walk_lt hs hlt path c hc)

/-- What is left to show of the first attribute when the rest is known to be applied. -/
theorem Applies.cons {ownerClass : String} {i : Attribute V} {attributes : List (Attribute V)}
    {values : Values V} (h : Ready (L.nodes m) n byClass) {m₁ : L.Memory} {first₁ : Values V}
    (hclass : applyClass L i byClass m values.first = .ok (m₁, first₁))
    (hext : (L.nodes m).Extends (L.nodes m₁))
    (hname : ∀ newScope m₂, (L.nodes m).Extends (L.nodes m₂) →
      Ready (L.nodes m₂) ((L.nodes m).nested n i.name) newScope →
      scopeOf (L.nodes m₂) newScope =
        (scopeOf (L.nodes m) byClass).enter (L.nodes m) ((L.nodes m).nested n i.name) →
      ∃ m₃ first, i.applyOverrides L ((L.nodes m).nested n i.name) newScope m₂ first₁ =
          .ok (m₃, first) ∧
        (L.nodes m₂).Extends (L.nodes m₃) ∧ ∀ address leaf,
          leafAt? ownerClass (i :: attributes) (0 :: address) = some leaf →
            first address = leafValue (L.nodes m) n (scopeOf (L.nodes m) byClass) leaf
              (values (0 :: address)))
    (hrest : ∀ m₃, (L.nodes m).Extends (L.nodes m₃) →
      Applies ownerClass attributes m₃ n byClass values.rest) :
    Applies ownerClass (i :: attributes) m n byClass values := by
  have hs := L.closed m
  have hnested := hext.nested_eq n h.lt_size i.name
  have hlt : ∀ c, (L.nodes m).nested n i.name = some c → c < (L.nodes m).size :=
    hs.nested_lt h.lt_size
  obtain ⟨newScope, m₂, hmerge, hclone, hext₂, hready, hscope⟩ := (h.extends hs hext).enter i.name
  rw [hnested] at hready hscope hclone
  rw [hext.scopeOf_eq hs h.valid, enter_extends hext hs hlt] at hscope
  obtain ⟨m₃, first, happly, hext₃, hfirst⟩ := hname newScope m₂ (hext.trans hext₂) hready hscope
  have hext₃' := (hext.trans hext₂).trans hext₃
  obtain ⟨m₄, rest, hrun, hext₄, hafter⟩ := hrest m₃ hext₃'
  refine ⟨m₄, Values.cons first rest, ?_, hext₃'.trans hext₄, ?_⟩
  · exact applyAttributes_cons hclass hmerge (by rw [hclone]; exact happly) hrun
  · intro address leaf hleaf
    cases address with
    | nil => cases hleaf
    | cons k address =>
        cases k with
        | zero => exact hfirst address leaf hleaf
        | succ k =>
            rw [leafAt?_rest] at hleaf
            have hvalue := hafter (k :: address) leaf hleaf
            rwa [hext₃'.scopeOf_eq hs h.valid, leafValue_extends hext₃' hs h.lt_size] at hvalue

/-- A scalar takes the node under its name. -/
theorem applyScalar_spec (hn : ∀ i, n = some i → i < (L.nodes m).size) {m' : L.Memory}
    (hext : (L.nodes m).Extends (L.nodes m')) {ownerClass : String} {d : Descriptor}
    {convert : String → Option V} {scope : Scope}
    (h : Accepts (L.nodes m) n scope ⟨[], ownerClass, d, convert⟩) (old : V) :
    applyScalar L convert ((L.nodes m).nested n d.name) m' old =
      .ok (leafValue (L.nodes m) n scope ⟨[], ownerClass, d, convert⟩ old) := by
  rw [leafValue, List.nil_append, NodeStore.walk_cons, NodeStore.walk_nil]
  cases hc : (L.nodes m).nested n d.name with
  | none =>
      rw [classText_of_owner_nil rfl]
      rfl
  | some c =>
      obtain ⟨x, hx, hconvert⟩ := h.byName c hc
      obtain ⟨v, hv⟩ := Option.isSome_iff_exists.1 hconvert
      have hv' : convert x = some v := hv
      have hlt := (L.closed m).nested_lt hn c hc
      have hlt' := Nat.lt_of_lt_of_le hlt hext.size_le
      have hvalue : (L.nodes m').value c = .scalar x :=
        (hext.value_eq c hlt).trans (NodeStore.text_eq_some_iff.1 hx)
      simp only [applyScalar, NodeLibrary.type_of_scalar hlt' hvalue,
        L.scalar_eq m' c x hlt' hvalue, hv', hx, Option.bind_some, Option.getD_some]

/-- No section is in force under the class of a scalar. -/
theorem applyClass_scalar {ownerClass : String} {d : Descriptor} {convert : String → Option V}
    (h : Accepts (L.nodes m) n (scopeOf (L.nodes m) byClass) ⟨[], ownerClass, d, convert⟩)
    (values : Values V) :
    applyClass L (.scalar d convert) byClass m values = .ok (m, values) := by
  rw [applyClass]
  split
  · next hne =>
      have hnone := h.ownClass hne [] List.nil_prefix
      rw [descend_nil, scopeOf, Option.map_eq_none_iff] at hnone
      have hfind : byClass.find? (":" ++ (Attribute.scalar d convert).className) = none := hnone
      simp only [hfind]
  · rfl

/-- What a section for the class of an object leaves in the leaves of the object: its own fields take
what the section says, and a leaf further down may change only when the scope says something of
it. -/
theorem applyClass_object {d : Descriptor} {attributes : List (Attribute V)}
    (ih : ∀ r values, Ready (L.nodes m) (some r) byClass →
      (∀ address leaf, leafAt? d.className attributes address = some leaf →
        Accepts (L.nodes m) (some r) (scopeOf (L.nodes m) byClass) leaf) →
      Applies d.className attributes m (some r) byClass values)
    (h : Ready (L.nodes m) n byClass)
    (ha : ∀ address leaf, leafAt? d.className attributes address = some leaf →
      Accepts (L.nodes m) n (scopeOf (L.nodes m) byClass) (leaf.under d.name))
    (values : Values V) :
    ∃ m' first, applyClass L (.object d attributes) byClass m values = .ok (m', first) ∧
      (L.nodes m).Extends (L.nodes m') ∧
      ∀ address leaf, leafAt? d.className attributes address = some leaf →
        (leaf.owner = [] → first address = ((classText (scopeOf (L.nodes m) byClass)
          (leaf.under d.name)).bind leaf.convert).getD (values address)) ∧
        (leaf.owner ≠ [] → classText (scopeOf (L.nodes m) byClass) leaf = none →
          first address = values address) := by
  have hclassName : (Attribute.object d attributes).className = d.className := rfl
  have hrefl := NodeStore.Extends.refl (L.nodes m)
  rw [applyClass, hclassName]
  by_cases hne : d.className = ""
  · -- An object without a class gets nothing here.
    refine ⟨m, values, if_neg (not_not.2 hne), hrefl, ?_⟩
    intro address leaf hleaf
    refine ⟨fun howner => ?_, fun _ _ => rfl⟩
    have hclass := ownerClass_of_leafAt? d.className attributes hleaf howner
    have hnone : classText (scopeOf (L.nodes m) byClass) (leaf.under d.name) = none :=
      if_pos (Or.inr (hclass.trans hne))
    rw [hnone, Option.bind_none, Option.getD_none]
  · rw [if_pos hne]
    cases hr : byClass.find? (":" ++ d.className) with
    | none =>
        -- No section of the scope is about the class.
        refine ⟨m, values, rfl, hrefl, ?_⟩
        intro address leaf hleaf
        refine ⟨fun howner => ?_, fun _ _ => rfl⟩
        have hclass := ownerClass_of_leafAt? d.className attributes hleaf howner
        rw [classText_under_class (by rw [hclass]; exact hne), hclass, scopeOf, hr, Option.map_none,
          Option.bind_none, Option.bind_none, Option.getD_none]
    | some r =>
        obtain ⟨hlt, hsec⟩ := h.valid _ r hr
        have hscope : scopeOf (L.nodes m) byClass (":" ++ d.className) =
            some ((L.nodes m).content r) := by
          rw [scopeOf, hr, Option.map_some]
        -- The section of the class is read as if it were the node of the object.
        have hready : Ready (L.nodes m) (some r) byClass := by
          refine ⟨h.valid, fun i hi => ?_, fun i hi => ?_, sectionsBelow_section hsec⟩
          · cases hi
            exact hlt
          · cases hi
            exact hsec.settled
        obtain ⟨m', first, happly, hext, hfirst⟩ := ih r values hready
          fun address leaf hleaf => (ha address leaf hleaf).ofSection hsec fun howner => by
            rw [ownerClass_of_leafAt? d.className attributes hleaf howner]
            exact ⟨hne, hscope⟩
        refine ⟨m', first, happly, hext, fun address leaf hleaf => ?_⟩
        have hvalue := hfirst address leaf hleaf
        rw [leafValue] at hvalue
        constructor
        · intro howner
          have hclass := ownerClass_of_leafAt? d.className attributes hleaf howner
          rw [howner, List.nil_append, NodeStore.walk_cons, NodeStore.walk_nil,
            NodeStore.nested_some] at hvalue
          rw [hvalue, classText_under_class (by rw [hclass]; exact hne), hclass, hscope,
            Option.bind_some, NodeStore.get?_content, classText_of_owner_nil howner]
          cases (L.nodes m).find? r leaf.descriptor.name with
          | none => rfl
          | some c => rfl
        · intro howner hnone
          rw [walk_section hsec howner, descend_section hsec] at hvalue
          rw [hvalue, hnone]
          rfl

/-- The attributes after the first accept what they are given also in a store with more nodes. -/
theorem Accepts.rest {ownerClass : String} {i : Attribute V} {attributes : List (Attribute V)}
    (h : Ready s n byClass) (hs : s.Closed) (ha : ∀ address leaf,
      leafAt? ownerClass (i :: attributes) address = some leaf → Accepts s n (scopeOf s byClass) leaf)
    {t : NodeStore} (hext : s.Extends t) : ∀ address leaf,
      leafAt? ownerClass attributes address = some leaf → Accepts t n (scopeOf t byClass) leaf := by
  intro address leaf hleaf
  cases address with
  | nil => cases hleaf
  | cons k address =>
      rw [hext.scopeOf_eq hs h.valid]
      exact (ha ((k + 1) :: address) leaf (by rwa [leafAt?_rest])).extends hext hs h.lt_size

/-- **What a run leaves in every leaf.** -/
theorem applyAttributes_spec (attributes : List (Attribute V)) (ownerClass : String)
    (h : Ready (L.nodes m) n byClass) (values : Values V)
    (ha : ∀ address leaf, leafAt? ownerClass attributes address = some leaf →
      Accepts (L.nodes m) n (scopeOf (L.nodes m) byClass) leaf) :
    Applies ownerClass attributes m n byClass values := by
  induction attributes using Attribute.listInduction generalizing ownerClass m n byClass values with
  | nil =>
      refine ⟨m, values, rfl, NodeStore.Extends.refl (L.nodes m), fun address leaf hleaf => ?_⟩
      cases address with
      | nil => cases hleaf
      | cons k address => simp [leafAt?] at hleaf
  | scalar d convert rest ih =>
      -- A scalar is a leaf, and no section of the scope is about its own class.
      have hs := L.closed m
      have hleaf := ha [0] _ (leafAt?_scalar_first ownerClass d rest convert)
      apply Applies.cons h (applyClass_scalar hleaf values.first)
        (NodeStore.Extends.refl (L.nodes m))
      · intro newScope m₂ hext hready _
        have hscalar := applyScalar_spec h.lt_size hext hleaf (values [0])
        refine ⟨m₂, Values.ofScalar (leafValue (L.nodes m) n (scopeOf (L.nodes m) byClass)
          ⟨[], ownerClass, d, convert⟩ (values [0])), ?_, NodeStore.Extends.refl (L.nodes m₂), ?_⟩
        · have hname : (Attribute.scalar d convert).name = d.name := rfl
          have hvalue : values.first [] = values [0] := rfl
          rw [Attribute.applyOverrides, hname, hvalue, hscalar]
          rfl
        · intro address leaf hat
          cases address with
          | nil =>
              rw [leafAt?_scalar_first] at hat
              cases hat
              rfl
          | cons k address => simp [leafAt?] at hat
      · intro m₃ hext
        exact ih ownerClass (h.extends hs hext) values.rest (Accepts.rest h hs ha hext)
  | object d attributes rest iha ihr =>
      have hs := L.closed m
      have hunder : ∀ address leaf, leafAt? d.className attributes address = some leaf →
          Accepts (L.nodes m) n (scopeOf (L.nodes m) byClass) (leaf.under d.name) := by
        intro address leaf hleaf
        apply ha (0 :: address)
        rw [leafAt?_object_first, hleaf, Option.map_some]
      -- First the class of the object, then the node, whose values come out on top.
      obtain ⟨m₁, first₁, hclass, hext₁, hfirst₁⟩ := applyClass_object
        (fun r values hr hacc => iha d.className hr values hacc) h hunder values.first
      apply Applies.cons h hclass hext₁
      · intro newScope m₂ hext hready hscope
        have hname : (Attribute.object d attributes).name = d.name := rfl
        rw [hname] at hready hscope ⊢
        have hlt : ∀ c, (L.nodes m).nested n d.name = some c → c < (L.nodes m).size :=
          hs.nested_lt h.lt_size
        have hinner : ∀ address leaf, leafAt? d.className attributes address = some leaf →
            Accepts (L.nodes m₂) ((L.nodes m).nested n d.name) (scopeOf (L.nodes m₂) newScope)
              leaf := by
          intro address leaf hleaf
          rw [hscope]
          exact (hunder address leaf hleaf).ofUnder.extends hext hs hlt
        obtain ⟨m₃, first, hrun, hext₃, hafter⟩ := iha d.className hready first₁ hinner
        refine ⟨m₃, first, hrun, hext₃, fun address leaf hat => ?_⟩
        rw [leafAt?_object_first, Option.map_eq_some_iff] at hat
        obtain ⟨inner, hat, rfl⟩ := hat
        obtain ⟨hfield, hdeep⟩ := hfirst₁ address inner hat
        rw [hafter address inner hat, hscope, leafValue_extends hext hs hlt]
        exact (leafValue_under (hunder address inner hat) hfield hdeep).symm
      · intro m₃ hext
        exact ihr ownerClass (h.extends hs hext) values.rest (Accepts.rest h hs ha hext)

end Run

end JayBeams.Config
