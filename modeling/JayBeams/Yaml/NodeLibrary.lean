import JayBeams.Yaml.NodeStore

/-!
# The library of YAML nodes

The source takes its nodes from a library. `NodeLibrary` is the functions of the library that the
source calls, with what the library documents of them as laws, as far as the source relies on it. A
library keeps its memory in its own way; `nodes` names what is in it, and the laws say in terms of
these nodes what the functions read and change. They ask nothing of a handle that is not in use, and
nothing of calls that the source does not make, such as asking a scalar for a key.

Definedness is the delicate point. Asking a node that is not defined for a key makes it a map of one
value that is not defined either. When something is assigned to this value later, the value and the
map around it are both defined, however deep the keys were nested. The laws need no word about it: the
map is not held, so that it is defined when its value is.
-/

set_option autoImplicit false

namespace JayBeams.Yaml

namespace NodeValue

/-- The map that a value is, or that it becomes when it is asked for a key. -/
def asMap : NodeValue → Option (Bool × List (String × NodeId))
  | undefined => some (false, [])
  | null => some (true, [])
  | map held pairs => some (held, pairs)
  | _ => none

/-- The items of the sequence that a value is, or that it becomes when a node is appended. -/
def asItems : NodeValue → Option (List NodeId)
  | undefined => some []
  | null => some []
  | sequence items => some items
  | _ => none

end NodeValue

/-- The functions of the library and their laws. -/
structure NodeLibrary where
  Memory : Type
  /-- What is in the memory. The source never looks at it. -/
  nodes : Memory → NodeStore
  /-- `Node::Type`; `IsDefined`, `IsNull` and `IsMap` are comparisons with it. -/
  type : Memory → NodeId → NodeType
  /-- `Node::Scalar` -/
  scalar : Memory → NodeId → String
  /-- `Node::size` -/
  size : Memory → NodeId → Nat
  /-- The items of a sequence, by the constant `operator[]` with the indices below the size. -/
  items : Memory → NodeId → List NodeId
  /-- What an iteration over a map visits. -/
  pairs : Memory → NodeId → List (String × NodeId)
  /-- The constant `operator[]` with a key. -/
  find? : Memory → NodeId → String → Option NodeId
  /-- `Node::operator=` with a string. -/
  assign : Memory → NodeId → String → Memory
  /-- `operator[]` with a key, of a node that may change. -/
  entry : Memory → NodeId → String → Except Failure (Memory × NodeId)
  /-- `operator[]` with an index, of a node that may change. -/
  element : Memory → NodeId → Nat → Except Failure (Memory × NodeId)
  /-- `Node::push_back` -/
  pushBack : Memory → NodeId → NodeId → Except Failure Memory
  /-- `YAML::Clone` -/
  clone : Memory → NodeId → Memory × NodeId
  /-- Nodes refer to nodes that are there. -/
  closed : ∀ m, (nodes m).Closed
  /-- A node that is defined has the type of its value. -/
  type_of_defined : ∀ m n, n < (nodes m).size → (nodes m).Defined n →
    type m n = ((nodes m).value n).type
  /-- A node that is not defined has a type of its own. -/
  type_of_not_defined : ∀ m n, n < (nodes m).size → ¬ (nodes m).Defined n → type m n = .undefined
  /-- The text of a scalar. -/
  scalar_eq : ∀ m n x, n < (nodes m).size → (nodes m).value n = .scalar x → scalar m n = x
  /-- The size of a sequence is the number of its items, when these are defined. -/
  size_of_sequence : ∀ m n items, n < (nodes m).size → (nodes m).value n = .sequence items →
    (∀ e ∈ items, (nodes m).Defined e) → size m n = items.length
  /-- A node that is not defined has no items. -/
  size_of_not_defined : ∀ m n, n < (nodes m).size → ¬ (nodes m).Defined n → size m n = 0
  /-- Indices lead to the items of a sequence in their order. -/
  items_eq : ∀ m n is, n < (nodes m).size → (nodes m).value n = .sequence is →
    (∀ e ∈ is, (nodes m).Defined e) → items m n = is
  /-- An iteration leaves out the keys whose values are not defined. -/
  pairs_eq : ∀ m n, n < (nodes m).size → type m n = .map →
    pairs m n = (nodes m).definedPairs n
  /-- A key leads to its value in a map, and no other key does. -/
  find?_eq : ∀ m n held ps key, n < (nodes m).size → (nodes m).value n = .map held ps →
    find? m n key = ps.lookup key
  /-- The node itself gets the text, so that every handle of it sees the text. -/
  assign_spec : ∀ m n x, n < (nodes m).size →
    (nodes m).Assigns (nodes (assign m n x)) n (.scalar x)
  /-- A key that the map has leads to the node that is there. -/
  entry_of_found : ∀ m n held ps key e, n < (nodes m).size →
    ((nodes m).value n).asMap = some (held, ps) → ps.lookup key = some e →
      ∃ m', entry m n key = .ok (m', e) ∧ (nodes m).Extends (nodes m')
  /-- A key that the map does not have is added to it, with a new node that is not defined. -/
  entry_of_missing : ∀ m n held ps key, n < (nodes m).size →
    ((nodes m).value n).asMap = some (held, ps) → ps.lookup key = none →
      ∃ m' e ps', entry m n key = .ok (m', e) ∧ ps'.Perm (ps ++ [(key, e)]) ∧
        (nodes m).Assigns (nodes m') n (.map held ps') ∧
        (nodes m).size ≤ e ∧ e < (nodes m').size ∧ (nodes m').value e = .undefined
  /-- An index below the size of a sequence leads to the item that is there. -/
  element_of_item : ∀ m n items i e, n < (nodes m).size → (nodes m).value n = .sequence items →
    (∀ e ∈ items, (nodes m).Defined e) → items[i]? = some e →
      ∃ m', element m n i = .ok (m', e) ∧ (nodes m).Extends (nodes m')
  /-- The node itself becomes the last item. -/
  pushBack_spec : ∀ m n items e, n < (nodes m).size → e < (nodes m).size → (nodes m).Defined e →
    ((nodes m).value n).asItems = some items → (∀ e ∈ items, (nodes m).Defined e) →
      ∃ m', pushBack m n e = .ok m' ∧ (nodes m).Assigns (nodes m') n (.sequence (items ++ [e]))
  /-- A copy is made of new nodes, one for each node of the original: an anchor and its aliases are
  one node in the copy too. -/
  clone_spec : ∀ m n, n < (nodes m).size → (nodes m).Defined n →
    ∃ copy, (nodes m).Clones (nodes (clone m n).1) n copy ∧ (clone m n).2 = copy n

namespace NodeLibrary

variable (L : NodeLibrary)

/-- The value under a key of a handle that may stand for no node:
`by_name and by_name.IsMap() and by_name[name]` and what `nested` is then. -/
def nested (m : L.Memory) (byName : Option NodeId) (name : String) : Option NodeId :=
  match byName with
  | none => none
  | some n =>
      if L.type m n = .map then
        match L.find? m n name with
        | some c => if L.type m c = .undefined then none else some c
        | none => none
      else none

variable {L} {m : L.Memory} {n : NodeId}

theorem type_of_held (hn : n < (L.nodes m).size) (h : ((L.nodes m).value n).held = true) :
    L.type m n = ((L.nodes m).value n).type := L.type_of_defined m n hn (.held h)

theorem type_of_scalar (hn : n < (L.nodes m).size) {x : String}
    (h : (L.nodes m).value n = .scalar x) : L.type m n = .scalar := by
  rw [type_of_held hn (by rw [h]; rfl), h]
  rfl

/-- In a node as it is loaded, a name leads to the value of the key. -/
theorem nested_eq {n : Option NodeId} (hn : ∀ i, n = some i → i < (L.nodes m).size)
    (h : ∀ i, n = some i → (L.nodes m).Settled i) (name : String) :
    L.nested m n name = (L.nodes m).nested n name := by
  cases n with
  | none => rfl
  | some n =>
      have hlt := hn n rfl
      have hsettled := h n rfl
      rw [nested, type_of_held hlt hsettled.held, NodeStore.nested_some]
      cases hv : (L.nodes m).value n with
      | map held pairs =>
          simp only [NodeValue.type, if_true]
          rw [L.find?_eq m n held pairs name hlt hv, NodeStore.find?_of_map hv]
          cases hc : pairs.lookup name with
          | none => rfl
          | some c =>
              -- The value under the key is there by itself.
              have hfind : (L.nodes m).find? n name = some c := (NodeStore.find?_of_map hv name).trans hc
              have hheld := hsettled.pairs (name, c) (NodeStore.mem_pairs_of_find? hfind)
              have hclt := L.closed m n hlt c (NodeStore.mem_refs_of_find? hfind)
              have htype : L.type m c ≠ .undefined := by
                rw [type_of_held hclt hheld]
                exact NodeValue.type_ne_undefined hheld
              simp only [if_neg htype]
      | undefined => simp [NodeStore.find?, hv, NodeValue.type, NodeValue.pairs]
      | null => simp [NodeStore.find?, hv, NodeValue.type, NodeValue.pairs]
      | scalar x => simp [NodeStore.find?, hv, NodeValue.type, NodeValue.pairs]
      | sequence items => simp [NodeStore.find?, hv, NodeValue.type, NodeValue.pairs]

end NodeLibrary

end JayBeams.Yaml
