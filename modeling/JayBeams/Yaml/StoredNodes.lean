import JayBeams.Yaml.NodeLibrary

/-!
# A library that stores its nodes

`storedNodes` is a library whose memory is the store of nodes itself. A map that is not held only
comes to be when a node is asked for a key, and the new value is the newest node then, so such a map
refers to later nodes (`StoredNodes.later`). Looking for a value that is defined therefore ends after
as many steps as there are nodes.

A copy is made of a copy of the whole store. The nodes that the copied node does not reach are copied
too, and nothing refers to them. Calls of which the laws say nothing raise.
-/

set_option autoImplicit false

namespace JayBeams.Yaml

/-- Nodes that refer to nodes, and to later ones from a map that is not held. -/
structure StoredNodes extends NodeStore where
  closed : toNodeStore.Closed
  later : ∀ i, i < size → (value i).held = false → ∀ p ∈ (value i).pairs, i < p.2

namespace NodeStore

variable (s : NodeStore)

/-- Look for a value that is there by itself, not further than some steps away. -/
def definedWithin : Nat → NodeId → Bool
  | 0, n => (s.value n).held
  | fuel + 1, n => (s.value n).held || (s.value n).pairs.any fun p => definedWithin fuel p.2

theorem defined_of_definedWithin {s : NodeStore} {fuel : Nat} {n : NodeId}
    (h : s.definedWithin fuel n = true) : s.Defined n := by
  induction fuel generalizing n with
  | zero => exact .held h
  | succ fuel ih =>
      rw [definedWithin, Bool.or_eq_true, List.any_eq_true] at h
      rcases h with h | ⟨p, hp, h⟩
      · exact .held h
      · exact .under hp (ih h)

/-- The store with one more node, which is not defined. -/
def create : NodeStore :=
  ⟨s.size + 1, fun i => if i = s.size then .undefined else s.value i⟩

end NodeStore

namespace NodeValue

/-- A value of the copy: the nodes that it refers to are renamed, and the pairs of a map whose values
are not defined are left out. -/
def copied (isDefined : NodeId → Bool) (copy : NodeId → NodeId) : NodeValue → NodeValue
  | sequence items => sequence (items.map copy)
  | map _ pairs => map true ((pairs.filter fun p => isDefined p.2).map fun p => (p.1, copy p.2))
  | v => v

theorem mem_refs_copied {isDefined : NodeId → Bool} {copy : NodeId → NodeId} {v : NodeValue}
    {c : NodeId} (h : c ∈ (v.copied isDefined copy).refs) : ∃ d ∈ v.refs, copy d = c := by
  cases v with
  | sequence items => exact List.mem_map.1 h
  | map held pairs =>
      obtain ⟨q, hq, rfl⟩ := List.mem_map.1 h
      obtain ⟨p, hp, rfl⟩ := List.mem_map.1 hq
      exact ⟨p.2, List.mem_map_of_mem (List.mem_filter.1 hp).1, rfl⟩
  | undefined => cases h
  | null => cases h
  | scalar x => cases h

end NodeValue

namespace StoredNodes

variable (s : StoredNodes)

/-- `Node::IsDefined` -/
def isDefined (n : NodeId) : Bool := s.definedWithin s.size n

/-- A value that is defined is found within as many steps as there are nodes after the node. -/
theorem definedWithin_of_defined {fuel : Nat} {n : NodeId} (hn : n < s.size)
    (hfuel : s.size ≤ n + fuel + 1) (h : s.Defined n) : s.definedWithin fuel n = true := by
  induction fuel generalizing n with
  | zero =>
      cases h with
      | held h => exact h
      | @under _ p hp h =>
          -- The last node refers to no later one, so it is there by itself.
          cases hheld : (s.value n).held with
          | true => rw [NodeStore.definedWithin, hheld]
          | false =>
              have hlater : n + 1 ≤ p.2 := s.later n hn hheld p hp
              exact absurd (s.closed.pair_lt hn hp) (Nat.not_lt.2 (Nat.le_trans hfuel hlater))
  | succ fuel ih =>
      rw [NodeStore.definedWithin, Bool.or_eq_true, List.any_eq_true]
      cases h with
      | held h => exact Or.inl h
      | @under _ p hp h =>
          cases hheld : (s.value n).held with
          | true => exact Or.inl rfl
          | false =>
              have hlater : n + 1 ≤ p.2 := s.later n hn hheld p hp
              have hfuel' : s.size ≤ p.2 + fuel + 1 := calc
                s.size ≤ n + 1 + (fuel + 1) := by rwa [Nat.add_right_comm]
                _ ≤ p.2 + (fuel + 1) := Nat.add_le_add_right hlater (fuel + 1)
              exact Or.inr ⟨p, hp, ih (s.closed.pair_lt hn hp) hfuel' h⟩

theorem isDefined_iff {n : NodeId} (hn : n < s.size) : s.isDefined n = true ↔ s.Defined n :=
  ⟨NodeStore.defined_of_definedWithin, s.definedWithin_of_defined hn (by omega)⟩

/-! ## Changing the store -/

/-- Assign a value that refers to no node. -/
def assign (n : NodeId) (x : String) : StoredNodes where
  toNodeStore := s.toNodeStore.set n (.scalar x)
  closed := by
    intro i hi c hc
    by_cases hin : i = n
    · simp [NodeStore.set, hin, NodeValue.refs, NodeValue.pairs] at hc
    · simp only [NodeStore.set, if_neg hin] at hc
      exact s.closed i hi c hc
  later := by
    intro i hi hheld p hp
    by_cases hin : i = n
    · simp [NodeStore.set, hin, NodeValue.held] at hheld
    · simp only [NodeStore.set, if_neg hin] at hheld hp
      exact s.later i hi hheld p hp

/-- The pairs of the map that a node is or becomes, which are all of nodes in use. -/
theorem pairs_of_asMap {n : NodeId} (hn : n < s.size) {held : Bool} {ps : List (String × NodeId)}
    (h : (s.value n).asMap = some (held, ps)) :
    ∀ p ∈ ps, p.2 < s.size ∧ (held = false → n < p.2) := by
  intro p hp
  cases hv : s.value n with
  | map held' ps' =>
      rw [hv] at h
      cases h
      have hmem : p ∈ (s.value n).pairs := by rw [hv]; exact hp
      refine ⟨s.closed.pair_lt hn hmem, fun hheld => s.later n hn ?_ p hmem⟩
      rw [hv]
      exact hheld
  | undefined => rw [hv] at h; cases h; cases hp
  | null => rw [hv] at h; cases h; cases hp
  | scalar x => rw [hv] at h; cases h
  | sequence items => rw [hv] at h; cases h

/-- Add a key to a map, with a new node. -/
def insert (n : NodeId) (hn : n < s.size) (held : Bool) (ps : List (String × NodeId))
    (h : (s.value n).asMap = some (held, ps)) (key : String) : StoredNodes where
  toNodeStore := s.toNodeStore.create.set n (.map held (ps ++ [(key, s.size)]))
  closed := by
    intro i hi c hc
    have hi' : i < s.size + 1 := hi
    show c < s.size + 1
    by_cases hin : i = n
    · simp only [NodeStore.set, if_pos hin] at hc
      obtain ⟨p, hp, rfl⟩ := List.mem_map.1 hc
      rcases List.mem_append.1 hp with hp | hp
      · exact Nat.lt_succ_of_lt (s.pairs_of_asMap hn h p hp).1
      · rw [List.mem_singleton.1 hp]
        exact Nat.lt_succ_self s.size
    · simp only [NodeStore.set, if_neg hin, NodeStore.create] at hc
      split at hc
      · cases hc
      · next hne =>
          have hlt : i < s.size := Nat.lt_of_le_of_ne (Nat.le_of_lt_succ hi') hne
          exact Nat.lt_succ_of_lt (s.closed i hlt c hc)
  later := by
    intro i hi hheld p hp
    have hi' : i < s.size + 1 := hi
    by_cases hin : i = n
    · simp only [NodeStore.set, if_pos hin] at hheld hp
      rcases List.mem_append.1 hp with hp | hp
      · exact hin ▸ (s.pairs_of_asMap hn h p hp).2 hheld
      · rw [List.mem_singleton.1 hp, hin]
        exact hn
    · simp only [NodeStore.set, if_neg hin, NodeStore.create] at hheld hp
      split at hp
      · cases hp
      · next hne =>
          rw [if_neg hne] at hheld
          exact s.later i (Nat.lt_of_le_of_ne (Nat.le_of_lt_succ hi') hne) hheld p hp

/-- `operator[]` with a key -/
def entry (n : NodeId) (key : String) : Except Failure (StoredNodes × NodeId) :=
  if hn : n < s.size then
    match h : (s.value n).asMap with
    | some (held, ps) =>
        match ps.lookup key with
        | some e => .ok (s, e)
        | none => .ok (s.insert n hn held ps h key, s.size)
    | none => .error (.external "YAML::BadSubscript")
  else .error (.external "YAML::InvalidNode")

/-- `operator[]` with an index -/
def element (n : NodeId) (i : Nat) : Except Failure (StoredNodes × NodeId) :=
  match (s.value n).asItems with
  | some items =>
      match items[i]? with
      | some e => .ok (s, e)
      | none => .error (.external "YAML::BadSubscript")
  | none => .error (.external "YAML::BadSubscript")

/-- The items of the sequence that a node is or becomes are in use. -/
theorem items_of_asItems {n : NodeId} (hn : n < s.size) {items : List NodeId}
    (h : (s.value n).asItems = some items) : ∀ e ∈ items, e < s.size := by
  intro e he
  cases hv : s.value n with
  | sequence items' =>
      rw [hv] at h
      cases h
      apply s.closed n hn
      rw [hv]
      exact he
  | undefined => rw [hv] at h; cases h; cases he
  | null => rw [hv] at h; cases h; cases he
  | scalar x => rw [hv] at h; cases h
  | map held pairs => rw [hv] at h; cases h

/-- The store after `push_back`. -/
def append (n e : NodeId) (hn : n < s.size) (he : e < s.size) (items : List NodeId)
    (h : (s.value n).asItems = some items) : StoredNodes where
  toNodeStore := s.toNodeStore.set n (.sequence (items ++ [e]))
  closed := by
    intro i hi c hc
    by_cases hin : i = n
    · simp only [NodeStore.set, if_pos hin] at hc
      rcases List.mem_append.1 hc with hc | hc
      · exact s.items_of_asItems hn h c hc
      · rw [List.mem_singleton.1 hc]
        exact he
    · simp only [NodeStore.set, if_neg hin] at hc
      exact s.closed i hi c hc
  later := by
    intro i hi hheld p hp
    by_cases hin : i = n
    · simp [NodeStore.set, hin, NodeValue.held] at hheld
    · simp only [NodeStore.set, if_neg hin] at hheld hp
      exact s.later i hi hheld p hp

/-- `Node::push_back` -/
def pushBack (n e : NodeId) : Except Failure StoredNodes :=
  if hn : n < s.size then
    if he : e < s.size then
      match h : (s.value n).asItems with
      | some items => .ok (s.append n e hn he items h)
      | none => .error (.external "YAML::BadPushback")
    else .error (.external "YAML::InvalidNode")
  else .error (.external "YAML::InvalidNode")

/-- The values of a store with a copy of every node behind it. -/
def copiedValue (i : NodeId) : NodeValue :=
  if i < s.size then s.value i else (s.value (i - s.size)).copied s.isDefined (· + s.size)

theorem copiedValue_of_lt {i : NodeId} (h : i < s.size) : s.copiedValue i = s.value i := if_pos h

theorem copiedValue_add (i : NodeId) :
    s.copiedValue (i + s.size) = (s.value i).copied s.isDefined (· + s.size) := by
  have hi : ¬ i + s.size < s.size := Nat.not_lt.2 (Nat.le_add_left s.size i)
  rw [copiedValue, if_neg hi, Nat.add_sub_cancel]

/-- The store with a copy of every node. -/
def cloneAll : StoredNodes where
  size := s.size + s.size
  value := s.copiedValue
  closed := by
    intro i hi c hc
    replace hc : c ∈ (s.copiedValue i).refs := hc
    rcases Nat.lt_or_ge i s.size with hlt | hge
    · rw [s.copiedValue_of_lt hlt] at hc
      exact Nat.lt_of_lt_of_le (s.closed i hlt c hc) (Nat.le_add_right s.size s.size)
    · obtain ⟨j, rfl⟩ := Nat.exists_eq_add_of_le' hge
      rw [s.copiedValue_add] at hc
      obtain ⟨d, hd, rfl⟩ := NodeValue.mem_refs_copied hc
      exact Nat.add_lt_add_right (s.closed j (Nat.lt_of_add_lt_add_right hi) d hd) s.size
  later := by
    intro i hi hheld p hp
    replace hheld : (s.copiedValue i).held = false := hheld
    replace hp : p ∈ (s.copiedValue i).pairs := hp
    rcases Nat.lt_or_ge i s.size with hlt | hge
    · rw [s.copiedValue_of_lt hlt] at hheld hp
      exact s.later i hlt hheld p hp
    · obtain ⟨j, rfl⟩ := Nat.exists_eq_add_of_le' hge
      rw [s.copiedValue_add] at hheld hp
      -- The maps of the copy are held.
      cases hv : s.value j with
      | map held pairs => rw [hv] at hheld; cases hheld
      | undefined => rw [hv] at hp; cases hp
      | null => rw [hv] at hp; cases hp
      | scalar x => rw [hv] at hp; cases hp
      | sequence items => rw [hv] at hp; cases hp

/-- `YAML::Clone` -/
def clone (n : NodeId) : StoredNodes × NodeId := (s.cloneAll, n + s.size)

/-- The pairs that an iteration visits are those with defined values. -/
theorem pairs_eq {n : NodeId} (hn : n < s.size) :
    (s.value n).pairs.filter (fun p => s.isDefined p.2) = s.definedPairs n := by
  classical
  rw [NodeStore.definedPairs]
  apply List.filter_congr
  intro p hp
  rw [Bool.eq_iff_iff, s.isDefined_iff (s.closed.pair_lt hn hp), decide_eq_true_iff]

theorem reaches_lt {n i : NodeId} (hn : n < s.size) (h : s.Reaches n i) : i < s.size := by
  induction h with
  | refl => exact hn
  | step hi hc hdef ih => exact s.closed _ ih _ hc

theorem clones {n : NodeId} (hn : n < s.size) :
    s.Clones s.cloneAll.toNodeStore n (· + s.size) where
  extended := ⟨Nat.le_add_right s.size s.size, fun i hi => s.copiedValue_of_lt hi⟩
  fresh i hi := ⟨Nat.le_add_left s.size i, Nat.add_lt_add_right (s.reaches_lt hn hi) s.size⟩
  injective i j _ _ h := Nat.add_right_cancel h
  null i _ hv := (s.copiedValue_add i).trans (by rw [hv]; rfl)
  scalar i x _ hv := (s.copiedValue_add i).trans (by rw [hv]; rfl)
  sequence i items _ hv _ := (s.copiedValue_add i).trans (by rw [hv]; rfl)
  map i held pairs hi hv := by
    refine ⟨_, (s.copiedValue_add i).trans (by rw [hv]; rfl), ?_⟩
    rw [← s.pairs_eq (s.reaches_lt hn hi), hv]
    exact List.Perm.refl _

end StoredNodes

/-- The library that keeps its nodes in a store. -/
def storedNodes : NodeLibrary where
  Memory := StoredNodes
  nodes s := s.toNodeStore
  type s n := if s.isDefined n then (s.value n).type else .undefined
  scalar s n := (s.text n).getD ""
  size s n :=
    match s.value n with
    | .sequence items => items.length
    | v => (v.pairs.filter fun p => s.isDefined p.2).length
  items s n := ((s.value n).asItems).getD []
  pairs s n := (s.value n).pairs.filter fun p => s.isDefined p.2
  find? s n key := s.find? n key
  assign := StoredNodes.assign
  entry := StoredNodes.entry
  element := StoredNodes.element
  pushBack := StoredNodes.pushBack
  clone := StoredNodes.clone
  closed s := s.closed
  type_of_defined s n hn h := if_pos ((s.isDefined_iff hn).2 h)
  type_of_not_defined s n hn h := if_neg fun hdef => h ((s.isDefined_iff hn).1 hdef)
  scalar_eq s n x _ hv := by rw [NodeStore.text_eq_some_iff.2 hv]; rfl
  size_of_sequence s n items _ hv _ := by rw [hv]
  size_of_not_defined s n hn h := by
    cases hv : s.value n with
    | sequence items => exact absurd (.held (by rw [hv]; rfl)) h
    | undefined => rfl
    | null => rfl
    | scalar x => rfl
    | map held pairs =>
        rw [List.length_eq_zero_iff, List.filter_eq_nil_iff]
        intro p hp hdef
        -- A value that is defined defines the map.
        have hmem : p ∈ (s.value n).pairs := by rw [hv]; exact hp
        exact h (.under hmem ((s.isDefined_iff (s.closed.pair_lt hn hmem)).1 hdef))
  items_eq s n is _ hv _ := by rw [hv]; rfl
  pairs_eq s n hn _ := s.pairs_eq hn
  find?_eq s n held ps key _ hv := NodeStore.find?_of_map hv key
  assign_spec s n x _ := NodeStore.assigns_set
  entry_of_found s n held ps key e hn h he := by
    refine ⟨s, ?_, NodeStore.Extends.refl s.toNodeStore⟩
    rw [StoredNodes.entry, dif_pos hn]
    split
    · next held' ps' h' =>
        cases h'.symm.trans h
        simp only [he]
    · next h' => cases h'.symm.trans h
  entry_of_missing s n held ps key hn h hnone := by
    refine ⟨s.insert n hn held ps h key, s.size, ps ++ [(key, s.size)], ?_, List.Perm.refl _, ?_,
      Nat.le_refl s.size, Nat.lt_succ_self s.size, ?_⟩
    · rw [StoredNodes.entry, dif_pos hn]
      split
      · next held' ps' h' =>
          cases h'.symm.trans h
          simp only [hnone]
      · next h' => cases h'.symm.trans h
    · refine ⟨Nat.le_succ s.size, if_pos rfl, fun i hi hin => ?_⟩
      exact (if_neg hin).trans (if_neg (Nat.ne_of_lt hi))
    · exact (if_neg (Nat.ne_of_gt hn)).trans (if_pos rfl)
  element_of_item s n items i e _ hv _ he := by
    refine ⟨s, ?_, NodeStore.Extends.refl s.toNodeStore⟩
    rw [StoredNodes.element, hv]
    simp only [NodeValue.asItems, he]
  pushBack_spec s n items e hn he _ h _ := by
    refine ⟨s.append n e hn he items h, ?_, NodeStore.assigns_set⟩
    rw [StoredNodes.pushBack, dif_pos hn, dif_pos he]
    split
    · next items' h' => cases h'.symm.trans h; rfl
    · next h' => cases h'.symm.trans h
  clone_spec s n hn _ := ⟨(· + s.size), s.clones hn, rfl⟩

end JayBeams.Yaml
