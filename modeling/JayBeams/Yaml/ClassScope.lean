import JayBeams.Yaml.MergeYaml

/-!
# The override sections that apply in a scope

A `Scope` gives for a class key what the sections in force say, apart from the nodes that hold them.
`Scope.enter` is the scope inside a node: a section of the node is written over the section that
applies outside, or applies alone when there is none.

The source enters a node by copying the class overrides and merging the node into the copies. With
the nodes of any library this is `Scope.enter` (`merge_clone`). The copies own nodes of their own, so
that merging into the section of one class changes no other section and no node of the document.
-/

set_option autoImplicit false

namespace JayBeams.Yaml

open Containers

/-- What the sections in force say, by class key. -/
abbrev Scope := String → Option (SharedMap String String)

/-- The scope that the class overrides stand for. -/
def scopeOf (s : NodeStore) (byClass : ClassOverrides) : Scope := fun key =>
  (byClass.find? key).map s.content

/-- The override section that a node holds under a class key. -/
def NodeStore.classSection (s : NodeStore) (n : Option NodeId) (key : String) : Option NodeId :=
  match n with
  | none => none
  | some n => if isClassKey key then s.find? n key else none

/-- A section over what applies outside. -/
noncomputable def overlay (s : NodeStore) (outer : Option (SharedMap String String)) (c : NodeId) :
    SharedMap String String :=
  match outer with
  | none => s.content c
  | some m => m.writeAll (s.fields c)

/-- The scope inside a node. -/
noncomputable def Scope.enter (scope : Scope) (s : NodeStore) (n : Option NodeId) : Scope :=
  fun key =>
    match s.classSection n key with
    | none => scope key
    | some c => some (overlay s (scope key) c)

/-- The class overrides refer to sections in use. -/
def Valid (s : NodeStore) (byClass : ClassOverrides) : Prop :=
  ∀ key n, byClass.find? key = some n → n < s.size ∧ s.IsSection n

/-- A node as it is loaded. If it is a map, its keys are distinct and its class keys hold sections. -/
structure HasSections (s : NodeStore) (n : NodeId) : Prop extends s.Settled n where
  nodup : ((s.value n).pairs.map Prod.fst).Nodup
  classes : ∀ p ∈ (s.value n).pairs, isClassKey p.1 = true → s.IsSection p.2

section

variable {L : NodeLibrary} {m : L.Memory} {s t : NodeStore} {n : NodeId}
  {byClass : ClassOverrides}

theorem NodeStore.Extends.valid (h : s.Extends t) (hs : s.Closed) (hv : Valid s byClass) :
    Valid t byClass := by
  intro key n hn
  obtain ⟨hlt, hsec⟩ := hv key n hn
  exact ⟨Nat.lt_of_lt_of_le hlt h.size_le, (h.agreeOn hs hlt).isSection hsec⟩

theorem NodeStore.Extends.scopeOf_eq (h : s.Extends t) (hs : s.Closed) (hv : Valid s byClass) :
    scopeOf t byClass = scopeOf s byClass := by
  funext key
  rw [scopeOf, scopeOf]
  cases hn : byClass.find? key with
  | none => rfl
  | some n => exact congrArg some (h.agreeOn hs (hv key n hn).1).content_eq

/-! ## Copies -/

/-- The copies of some entries: they say what the originals say, and the nodes of each are new and
its own. -/
structure Copied (s t : NodeStore) (entries copies : List (String × NodeId))
    (owner : NodeId → String) : Prop where
  extended : s.Extends t
  content_eq : ∀ key, (copies.lookup key).map t.content = (entries.lookup key).map s.content
  copy : ∀ e ∈ copies, e.2 < t.size ∧ t.IsSection e.2 ∧
    ∀ i, t.Owns e.2 i → s.size ≤ i ∧ owner i = e.1

theorem copied_cloneEntries (entries : List (String × NodeId))
    (hv : ∀ e ∈ entries, e.2 < (L.nodes m).size ∧ (L.nodes m).IsSection e.2) :
    ∃ owner, Copied (L.nodes m) (L.nodes (cloneEntries L entries m).2) entries
      (cloneEntries L entries m).1 owner := by
  induction entries generalizing m with
  | nil =>
      exact ⟨fun _ => "", NodeStore.Extends.refl (L.nodes m), fun _ => rfl, fun e he => by cases he⟩
  | cons e entries ih =>
      obtain ⟨hlt, hsec⟩ := hv e (by simp)
      obtain ⟨copy, hclone, hcopy⟩ := L.clone_spec m e.2 hlt hsec.defined
      have hext := hclone.extended
      have hcopied : (L.nodes (L.clone m e.2).1).IsSection (L.clone m e.2).2 := by
        rw [hcopy]
        exact hclone.isSection hsec
      have hclt : (L.clone m e.2).2 < (L.nodes (L.clone m e.2).1).size := by
        rw [hcopy]
        exact (hclone.fresh e.2 .refl).2
      obtain ⟨owner, h⟩ := ih fun f hf => by
        obtain ⟨hflt, hfsec⟩ := hv f (List.mem_cons_of_mem e hf)
        exact ⟨Nat.lt_of_lt_of_le hflt hext.size_le,
          (hext.agreeOn (L.closed m) hflt).isSection hfsec⟩
      have hagree := h.extended.agreeOn (L.closed _) hclt
      -- What was in use before the other copies were made belongs to the first copy.
      refine ⟨fun i => if i < (L.nodes (L.clone m e.2).1).size then e.1 else owner i,
        hext.trans h.extended, ?_, ?_⟩
      · intro key
        rw [cloneEntries, List.lookup_cons, List.lookup_cons]
        cases key == e.1 with
        | true =>
            show some _ = some _
            rw [hagree.content_eq, hcopy, hclone.content_section hsec]
        | false =>
            show (List.lookup key _).map _ = (List.lookup key entries).map _
            rw [h.content_eq]
            cases hf : entries.lookup key with
            | none => rfl
            | some n =>
                have hn := hv (key, n) (List.mem_cons_of_mem e (PairList.mem_of_lookup hf))
                exact congrArg some (hext.agreeOn (L.closed m) hn.1).content_eq
      · intro f hf
        rw [cloneEntries] at hf
        rcases List.mem_cons.1 hf with rfl | hf
        · refine ⟨Nat.lt_of_lt_of_le hclt h.extended.size_le, hagree.isSection hcopied,
            fun i hi => ?_⟩
          have hi' := hagree.owns_iff.1 hi
          rw [hcopy] at hi'
          obtain ⟨hle, hilt⟩ := hclone.owns_section hsec hi'
          exact ⟨hle, if_pos hilt⟩
        · obtain ⟨hflt, hfsec, hfown⟩ := h.copy f hf
          refine ⟨hflt, hfsec, fun i hi => ?_⟩
          obtain ⟨hle, how⟩ := hfown i hi
          exact ⟨Nat.le_trans hext.size_le hle, (if_neg (Nat.not_lt.2 hle)).trans how⟩

/-! ## Merging into copies -/

/-- Below `bound` are the nodes of the document. A section in force is either a section of the
document or has nodes of its own above. -/
structure Separated (bound : Nat) (owner : NodeId → String) (s : NodeStore)
    (byClass : ClassOverrides) : Prop where
  closed : s.Closed
  valid : Valid s byClass
  apart : ∀ key n, byClass.find? key = some n →
    (∀ i, s.Owns n i → i < bound) ∨ ∀ i, s.Owns n i → bound ≤ i ∧ owner i = key

/-- The scope after the pairs of a map have been merged. -/
noncomputable def enterPairs (scope : Scope) (s : NodeStore) (ps : List (String × NodeId)) : Scope :=
  fun key =>
    match if isClassKey key then ps.lookup key else none with
    | none => scope key
    | some c => some (overlay s (scope key) c)

/-- A pair of a map of the document: when its key is a class key, its value is a section. -/
def DocumentPair (bound : Nat) (s : NodeStore) (p : String × NodeId) : Prop :=
  isClassKey p.1 = true → p.2 < s.size ∧ s.IsSection p.2 ∧ ∀ i, s.Owns p.2 i → i < bound

variable {bound : Nat} {owner : NodeId → String}

/-- The first section for a class joins the class overrides as it is. -/
theorem Separated.emplace (h : Separated bound owner s byClass) {key : String} {n : NodeId}
    (hfind : byClass.find? key = none) (hlt : n < s.size) (hsec : s.IsSection n)
    (hown : ∀ i, s.Owns n i → i < bound) : Separated bound owner s (byClass.emplace key n) := by
  have hentry : ∀ j m, (byClass.emplace key n).find? j = some m →
      (j = key ∧ m = n) ∨ byClass.find? j = some m := by
    intro j m hm
    rw [OrderedMap.find?_emplace] at hm
    by_cases hj : j = key
    · subst hj
      rw [if_pos rfl, hfind] at hm
      exact Or.inl ⟨rfl, (Option.some.inj hm).symm⟩
    · simp only [if_neg hj] at hm
      exact Or.inr hm
  refine ⟨h.closed, fun j m hm => ?_, fun j m hm => ?_⟩
  · rcases hentry j m hm with ⟨rfl, rfl⟩ | hm
    · exact ⟨hlt, hsec⟩
    · exact h.valid j m hm
  · rcases hentry j m hm with ⟨rfl, rfl⟩ | hm
    · exact Or.inl hown
    · exact h.apart j m hm

/-- Changing the section of a class leaves the others and the document alone. -/
theorem Separated.update (h : Separated bound owner s byClass) (hb : bound ≤ s.size)
    (ht : t.Closed) {key : String} {n : NodeId} (hfind : byClass.find? key = some n)
    (hown : ∀ i, s.Owns n i → bound ≤ i ∧ owner i = key) {content : SharedMap String String}
    (hu : SectionUpdate s t n content) :
    Separated bound (fun i => if s.size ≤ i then key else owner i) t byClass ∧
      (∀ c, (∀ i, s.Owns c i → i < bound) → s.AgreeOn t c) ∧
      ∀ j c, j ≠ key → byClass.find? j = some c → s.AgreeOn t c := by
  have hdoc : ∀ c, (∀ i, s.Owns c i → i < bound) → s.AgreeOn t c := by
    intro c hc i hi
    apply hu.frame i (Nat.lt_of_lt_of_le (hc i hi) hb)
    intro hni
    exact absurd (hc i hi) (Nat.not_lt.2 (hown i hni).1)
  have hother : ∀ j c, j ≠ key → byClass.find? j = some c → s.AgreeOn t c := by
    intro j c hj hc
    -- A section is either in the document or a copy that another class owns.
    rcases h.apart j c hc with hlow | hhigh
    · exact hdoc c hlow
    · intro i hi
      apply hu.frame i (h.closed.owns_lt (h.valid j c hc).1 hi)
      intro hni
      exact hj ((hhigh i hi).2.symm.trans (hown i hni).2)
  -- The nodes that the update created belong to the section updated.
  refine ⟨⟨ht, fun j c hc => ?_, fun j c hc => ?_⟩, hdoc, hother⟩
  · refine ⟨Nat.lt_of_lt_of_le (h.valid j c hc).1 hu.size_le, ?_⟩
    by_cases hj : j = key
    · subst hj
      rw [hfind] at hc
      cases hc
      exact hu.isSection
    · exact (hother j c hj hc).isSection (h.valid j c hc).2
  · by_cases hj : j = key
    · subst hj
      rw [hfind] at hc
      cases hc
      right
      intro i hi
      rcases hu.owns i hi with hi | hi
      · obtain ⟨hle, how⟩ := hown i hi
        refine ⟨hle, ?_⟩
        split
        · rfl
        · exact how
      · exact ⟨Nat.le_trans hb hi, if_pos hi⟩
    · have hagree := hother j c hj hc
      rcases h.apart j c hc with hlow | hhigh
      · exact Or.inl fun i hi => hlow i (hagree.owns_iff.1 hi)
      · right
        intro i hi
        have hi' := hagree.owns_iff.1 hi
        have hlt := h.closed.owns_lt (h.valid j c hc).1 hi'
        exact ⟨(hhigh i hi').1, (if_neg (Nat.not_le.2 hlt)).trans (hhigh i hi').2⟩

theorem DocumentPair.agree {p : String × NodeId} (h : DocumentPair bound s p)
    (hsize : s.size ≤ t.size)
    (hdoc : ∀ c, (∀ i, s.Owns c i → i < bound) → s.AgreeOn t c) : DocumentPair bound t p := by
  intro hp
  obtain ⟨hlt, hsec, hown⟩ := h hp
  have hagree := hdoc p.2 hown
  exact ⟨Nat.lt_of_lt_of_le hlt hsize, hagree.isSection hsec, fun i hi => hown i (hagree.owns_iff.1 hi)⟩

/-- A section of the document is read alike in stores that agree on the document. -/
theorem overlay_congr (h : s.AgreeOn t n) (outer : Option (SharedMap String String)) :
    overlay t outer n = overlay s outer n := by
  cases outer with
  | none => exact h.content_eq
  | some m => rw [overlay, overlay, h.fields_eq]

theorem enterPairs_congr {scope scope' : Scope} {ps : List (String × NodeId)} {key : String}
    (hscope : scope key = scope' key)
    (hps : ∀ c, isClassKey key = true → (key, c) ∈ ps → s.AgreeOn t c) :
    enterPairs scope t ps key = enterPairs scope' s ps key := by
  rw [enterPairs, enterPairs, hscope]
  cases hkey : isClassKey key with
  | false => rfl
  | true =>
      cases hc : ps.lookup key with
      | none => simp
      | some c =>
          have hagree := hps c hkey (PairList.mem_of_lookup hc)
          simp only [if_true, overlay_congr hagree]

theorem enterPairs_cons_of_ne (scope : Scope) (s : NodeStore) (p : String × NodeId)
    (ps : List (String × NodeId)) {key : String} (h : key ≠ p.1) :
    enterPairs scope s (p :: ps) key = enterPairs scope s ps key := by
  have hb : (key == p.1) = false := by simpa using h
  rw [enterPairs, enterPairs, List.lookup_cons, hb]

theorem enterPairs_cons_self (scope : Scope) (s : NodeStore) (p : String × NodeId)
    (ps : List (String × NodeId)) (h : isClassKey p.1 = true) :
    enterPairs scope s (p :: ps) p.1 = some (overlay s (scope p.1) p.2) := by
  have hlookup : (p :: ps).lookup p.1 = some p.2 := by
    rw [List.lookup_cons]
    simp
  rw [enterPairs, if_pos h, hlookup]

theorem enterPairs_of_not_mem (scope : Scope) (s : NodeStore) {ps : List (String × NodeId)}
    {key : String} (h : ∀ p ∈ ps, p.1 ≠ key) : enterPairs scope s ps key = scope key := by
  have hnone : ps.lookup key = none := by
    rw [List.lookup_eq_none_iff]
    intro p hp
    simpa using fun heq : key = p.1 => h p hp heq.symm
  rw [enterPairs, hnone, ite_self]

/-- A key that is no class is passed over. -/
theorem enterPairs_cons_of_not_class (scope : Scope) (s : NodeStore) {p : String × NodeId}
    (ps : List (String × NodeId)) (h : isClassKey p.1 = false) :
    enterPairs scope s (p :: ps) = enterPairs scope s ps := by
  funext key
  by_cases hkey : key = p.1
  · rw [hkey]
    simp [enterPairs, h]
  · exact enterPairs_cons_of_ne scope s p ps hkey

/-- The first pair is entered, and then the others, which the store says the same about. -/
theorem enterPairs_cons {scope scope' : Scope} {p : String × NodeId} {ps : List (String × NodeId)}
    (hclass : isClassKey p.1 = true) (hne : ∀ q ∈ ps, q.1 ≠ p.1)
    (hself : scope' p.1 = some (overlay s (scope p.1) p.2))
    (hother : ∀ key, key ≠ p.1 → scope' key = scope key)
    (hps : ∀ q ∈ ps, isClassKey q.1 = true → s.AgreeOn t q.2) :
    enterPairs scope' t ps = enterPairs scope s (p :: ps) := by
  funext key
  by_cases hkey : key = p.1
  · rw [hkey, enterPairs_cons_self _ _ p ps hclass, enterPairs_of_not_mem _ _ hne, hself]
  · rw [enterPairs_cons_of_ne _ _ p ps hkey]
    exact enterPairs_congr (hother key hkey) fun c hc hmem => hps (key, c) hmem hc

/-- Merging the pairs of a map of the document into sections that are apart from each other. -/
theorem mergeClasses_spec (ps : List (String × NodeId)) (hb : bound ≤ (L.nodes m).size)
    (h : Separated bound owner (L.nodes m) byClass) (hnodup : (ps.map Prod.fst).Nodup)
    (hps : ∀ p ∈ ps, DocumentPair bound (L.nodes m) p)
    (hown : ∀ p ∈ ps, ∀ n, byClass.find? p.1 = some n →
      ∀ i, (L.nodes m).Owns n i → bound ≤ i ∧ owner i = p.1) :
    ∃ newScope m', mergeClasses L byClass ps m = .ok (newScope, m') ∧
      (L.nodes m).size ≤ (L.nodes m').size ∧
      (∀ i, i < bound → (L.nodes m').value i = (L.nodes m).value i) ∧
      Valid (L.nodes m') newScope ∧
      scopeOf (L.nodes m') newScope = enterPairs (scopeOf (L.nodes m) byClass) (L.nodes m) ps := by
  induction ps generalizing byClass m owner with
  | nil =>
      refine ⟨byClass, m, rfl, Nat.le_refl _, fun _ _ => rfl, h.valid, ?_⟩
      funext key
      exact (enterPairs_of_not_mem _ _ fun p hp => by cases hp).symm
  | cons p ps ih =>
      rw [List.map_cons, List.nodup_cons] at hnodup
      have hne : ∀ q ∈ ps, q.1 ≠ p.1 := fun q hq heq =>
        hnodup.1 (List.mem_map.2 ⟨q, hq, heq⟩)
      have hrest : ∀ q ∈ ps, DocumentPair bound (L.nodes m) q :=
        fun q hq => hps q (List.mem_cons_of_mem p hq)
      cases hclass : isClassKey p.1 with
      | false =>
          -- A key that is no class is passed over.
          obtain ⟨newScope, m', heq, hsize, hkept, hvalid, hscope⟩ := ih hb h hnodup.2 hrest
            fun q hq => hown q (List.mem_cons_of_mem p hq)
          refine ⟨newScope, m', ?_, hsize, hkept, hvalid, ?_⟩
          · simp only [mergeClasses, hclass, Bool.not_false, if_true, heq]
          · rw [hscope, enterPairs_cons_of_not_class _ _ ps hclass]
      | true =>
          obtain ⟨hlt, hsec, hlow⟩ := hps p (by simp) hclass
          cases hfind : byClass.find? p.1 with
          | none =>
              -- The section itself is entered, and the document keeps its nodes.
              have hget : ∀ key, key ≠ p.1 →
                  (byClass.emplace p.1 p.2).find? key = byClass.find? key := fun key hkey => by
                rw [OrderedMap.find?_emplace, if_neg hkey]
              obtain ⟨newScope, m', heq, hsize, hkept, hvalid, hscope⟩ := ih hb
                (h.emplace hfind hlt hsec hlow) hnodup.2 hrest fun q hq n hn =>
                  hown q (List.mem_cons_of_mem p hq) n (by rwa [hget q.1 (hne q hq)] at hn)
              refine ⟨newScope, m', ?_, hsize, hkept, hvalid, ?_⟩
              · simp only [mergeClasses, hclass, Bool.not_true, hfind, heq]
                rfl
              · rw [hscope]
                apply enterPairs_cons hclass hne
                · rw [scopeOf, scopeOf, OrderedMap.find?_emplace, if_pos rfl, hfind]
                  rfl
                · intro key hkey
                  rw [scopeOf, scopeOf, hget key hkey]
                · exact fun q _ _ i _ => rfl
          | some target =>
              -- The section is merged into the copy, whose nodes are none of the document.
              have htarget := hown p (by simp) target hfind
              obtain ⟨htlt, htsec⟩ := h.valid p.1 target hfind
              obtain ⟨m₁, hmerge, hu⟩ := mergeNode_section htlt htsec hlt hsec
                fun i hi hti => absurd (hlow i hi) (Nat.not_lt.2 (htarget i hti).1)
              obtain ⟨hsep, hdoc, hother⟩ := h.update hb (L.closed m₁) hfind htarget hu
              have hbu := Nat.le_trans hb hu.size_le
              obtain ⟨newScope, m', heq, hsize, hkept, hvalid, hscope⟩ := ih hbu hsep
                hnodup.2 (fun q hq => (hrest q hq).agree hu.size_le hdoc) fun q hq n hn i hi => by
                  have hagree := hother q.1 n (hne q hq) hn
                  have hi' := hagree.owns_iff.1 hi
                  have hlt' := h.closed.owns_lt (h.valid q.1 n hn).1 hi'
                  obtain ⟨hle, how⟩ := hown q (List.mem_cons_of_mem p hq) n hn i hi'
                  exact ⟨hle, (if_neg (Nat.not_le.2 hlt')).trans how⟩
              refine ⟨newScope, m', ?_, Nat.le_trans hu.size_le hsize, ?_, hvalid, ?_⟩
              · simp only [mergeClasses, hclass, Bool.not_true, hfind, bind, Except.bind, hmerge,
                  heq]
                rfl
              · intro i hi
                rw [hkept i hi]
                apply hu.frame i (Nat.lt_of_lt_of_le hi hb)
                exact fun hti => absurd hi (Nat.not_lt.2 (htarget i hti).1)
              · rw [hscope]
                apply enterPairs_cons hclass hne
                · rw [scopeOf, scopeOf, hfind]
                  exact congrArg some hu.content_eq
                · intro key hkey
                  rw [scopeOf, scopeOf]
                  cases hn : byClass.find? key with
                  | none => rfl
                  | some n => exact congrArg some (hother key n hkey hn).content_eq
                · exact fun q hq hclass' => hdoc q.2 (hrest q hq hclass').2.2

/-! ## Entering a node -/

theorem enter_eq_enterPairs (scope : Scope) (s : NodeStore) (n : NodeId) :
    scope.enter s (some n) = enterPairs scope s (s.value n).pairs := rfl

theorem enter_of_pairs_nil (scope : Scope) (h : (s.value n).pairs = []) :
    scope.enter s (some n) = scope := by
  funext key
  rw [enter_eq_enterPairs, h]
  exact enterPairs_of_not_mem scope s fun p hp => by cases hp

@[simp] theorem enter_none (scope : Scope) (s : NodeStore) : scope.enter s none = scope := rfl

/-- The copies are apart from each other and from everything that was in use. -/
theorem separated_clone (hv : Valid (L.nodes m) byClass) :
    ∃ owner, (L.nodes m).Extends (L.nodes (clone L byClass m).2) ∧
      Separated (L.nodes m).size owner (L.nodes (clone L byClass m).2) (clone L byClass m).1 ∧
      (∀ key n, (clone L byClass m).1.find? key = some n →
        ∀ i, (L.nodes (clone L byClass m).2).Owns n i → (L.nodes m).size ≤ i ∧ owner i = key) ∧
      scopeOf (L.nodes (clone L byClass m).2) (clone L byClass m).1 =
        scopeOf (L.nodes m) byClass := by
  obtain ⟨owner, h⟩ := copied_cloneEntries byClass.entries fun e he =>
    hv e.1 e.2 (OrderedMap.find?_eq_some_iff.2 he)
  have hcopy : ∀ key n, (clone L byClass m).1.find? key = some n →
      n < (L.nodes (clone L byClass m).2).size ∧ (L.nodes (clone L byClass m).2).IsSection n ∧
        ∀ i, (L.nodes (clone L byClass m).2).Owns n i → (L.nodes m).size ≤ i ∧ owner i = key :=
    fun key n hn => h.copy (key, n) (OrderedMap.mem_of_find? hn)
  refine ⟨owner, h.extended, ⟨L.closed _, fun key n hn => ?_, fun key n hn => ?_⟩,
    fun key n hn => (hcopy key n hn).2.2, ?_⟩
  · exact ⟨(hcopy key n hn).1, (hcopy key n hn).2.1⟩
  · exact Or.inr (hcopy key n hn).2.2
  · funext key
    exact h.content_eq key

/-- A node as it is loaded is read alike when there are more nodes. -/
theorem HasSections.extends (h : HasSections s n) (hext : s.Extends t) (hs : s.Closed)
    (hn : n < s.size) : HasSections t n := by
  have hroot := hext.value_eq n hn
  refine ⟨hext.settled hs hn h.toSettled, by rw [hroot]; exact h.nodup, fun p hp hclass => ?_⟩
  rw [hroot] at hp
  exact (hext.agreeOn hs (hs.pair_lt hn hp)).isSection (h.classes p hp hclass)

theorem HasSections.definedPairs_eq (h : HasSections s n) :
    s.definedPairs n = (s.value n).pairs :=
  NodeStore.definedPairs_eq fun p hp => .held (h.pairs p hp)

/-- The type of a node as it is loaded tells whether it has pairs. -/
theorem HasSections.pairs_eq_nil (h : HasSections (L.nodes m) n) (hn : n < (L.nodes m).size)
    (htype : L.type m n ≠ .map) : ((L.nodes m).value n).pairs = [] := by
  rw [NodeLibrary.type_of_held hn h.held] at htype
  cases hv : (L.nodes m).value n with
  | map held pairs => rw [hv] at htype; exact absurd rfl htype
  | undefined => rfl
  | null => rfl
  | scalar x => rfl
  | sequence items => rfl

/-- Copying the class overrides and merging a node of the document into the copies enters the
node. -/
theorem merge_clone (hv : Valid (L.nodes m) byClass) (n : Option NodeId)
    (hn : ∀ i, n = some i → i < (L.nodes m).size)
    (hsections : ∀ i, n = some i → HasSections (L.nodes m) i) :
    ∃ newScope m', merge L (clone L byClass m).1 n (clone L byClass m).2 = .ok (newScope, m') ∧
      (L.nodes m).Extends (L.nodes m') ∧ Valid (L.nodes m') newScope ∧
      scopeOf (L.nodes m') newScope = (scopeOf (L.nodes m) byClass).enter (L.nodes m) n := by
  obtain ⟨owner, hext, hsep, hown, hscope⟩ := separated_clone hv
  cases n with
  | none => exact ⟨_, _, rfl, hext, hsep.valid, hscope⟩
  | some n =>
      have hlt := hn n rfl
      have hok := hsections n rfl
      have hlt' := Nat.lt_of_lt_of_le hlt hext.size_le
      have hok' := hok.extends hext (L.closed m) hlt
      have hvalue := hext.value_eq n hlt
      rw [merge]
      by_cases htype : L.type (clone L byClass m).2 n = .map
      · have hdocument : ∀ p ∈ ((L.nodes m).value n).pairs,
            DocumentPair (L.nodes m).size (L.nodes (clone L byClass m).2) p := by
          intro p hp hclass
          have hplt := (L.closed m).pair_lt hlt hp
          have hpagree := hext.agreeOn (L.closed m) hplt
          refine ⟨Nat.lt_of_lt_of_le hplt hext.size_le,
            hpagree.isSection (hok.classes p hp hclass), fun i hi => ?_⟩
          exact (L.closed m).owns_lt hplt (hpagree.owns_iff.1 hi)
        -- The store before the copies were made is the bound below which nothing changes.
        obtain ⟨newScope, m', heq, hsize, hkept, hvalid, hscope'⟩ := mergeClasses_spec
          ((L.nodes m).value n).pairs hext.size_le hsep hok.nodup hdocument fun p hp => hown p.1
        refine ⟨newScope, m', ?_, ⟨Nat.le_trans hext.size_le hsize, fun i hi => ?_⟩, hvalid, ?_⟩
        · show (if _ then _ else _) = _
          rw [if_pos htype, L.pairs_eq _ n hlt' htype, hok'.definedPairs_eq, hvalue]
          exact heq
        · rw [hkept i hi, hext.value_eq i hi]
        · rw [hscope', enter_eq_enterPairs]
          funext key
          apply enterPairs_congr
          · rw [hscope]
          · intro c _ hc
            exact hext.agreeOn (L.closed m) ((L.closed m).pair_lt hlt hc)
      · -- A node that is no map has no classes.
        refine ⟨(clone L byClass m).1, (clone L byClass m).2, if_neg htype, hext, hsep.valid, ?_⟩
        have hnil := hok'.pairs_eq_nil hlt' htype
        rw [hvalue] at hnil
        rw [hscope, enter_of_pairs_nil _ hnil]

end

end JayBeams.Yaml
