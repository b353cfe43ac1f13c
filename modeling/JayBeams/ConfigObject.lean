import JayBeams.Yaml.ClassScope

/-!
# Applying a YAML document to a configuration object

A configuration object is the list of its attributes; an attribute holds a scalar or another
configuration object. What the code keeps in the members of these objects is kept apart from the
tree of attributes, in `Values`: the address of a value is the list of the positions that lead to
it. A scalar knows how the text of a node converts to its type (`YAML::Node::as`); a text that does
not convert raises.

`applyOverrides` goes through the attributes in order, with the nodes of any library. An attribute
with a class first takes the override section of its class. Then it takes the node under its own
name, in a scope that this node may extend with sections of its own.

Attributes that hold sequences, the descriptions for the command line and the validation of the
values are not part of the model.
-/

set_option autoImplicit false

namespace JayBeams.Config

open Yaml

/-- `attribute_descriptor`; an attribute without a class has the empty class name. -/
structure Descriptor where
  name : String
  className : String
  deriving DecidableEq, Repr

/-- An attribute of a configuration object. -/
inductive Attribute (V : Type) where
  | scalar (descriptor : Descriptor) (convert : String → Option V)
  | object (descriptor : Descriptor) (attributes : List (Attribute V))

/-- The value at each address. -/
abbrev Values (V : Type) := List Nat → V

variable {V : Type}

namespace Values

/-- The values of the first attribute. -/
def first (values : Values V) : Values V := fun address => values (0 :: address)

/-- The values of the attributes after the first one. -/
def rest (values : Values V) : Values V
  | [] => values []
  | i :: address => values ((i + 1) :: address)

/-- The values of a list of attributes. -/
def cons (first rest : Values V) : Values V
  | [] => rest []
  | 0 :: address => first address
  | (i + 1) :: address => rest (i :: address)

/-- The values of a scalar. -/
def ofScalar (v : V) : Values V := fun _ => v

end Values

namespace Attribute

def descriptor : Attribute V → Descriptor
  | scalar d _ => d
  | object d _ => d

def name (i : Attribute V) : String := i.descriptor.name

def className (i : Attribute V) : String := i.descriptor.className

end Attribute

section Overrides

variable (L : NodeLibrary)

/-- `config_recurse::apply_overrides` of a scalar. -/
def applyScalar (convert : String → Option V) (byName : Option NodeId) (m : L.Memory) (lhs : V) :
    Except Failure V :=
  match byName with
  | none => .ok lhs
  | some n =>
      match L.type m n with
      | .undefined => .ok lhs
      | .null => .ok lhs
      | .scalar =>
          match convert (L.scalar m n) with
          | some v => .ok v
          | none => .error (.external "YAML::Node::as")
      | _ => .error (.external "YAML::Node::as")

mutual

def Attribute.applyOverrides : Attribute V → Option NodeId → ClassOverrides → L.Memory → Values V →
    Except Failure (L.Memory × Values V)
  | .scalar _ convert, byName, _, m, values => do
      let v ← applyScalar L convert byName m (values [])
      .ok (m, Values.ofScalar v)
  | .object _ attributes, byName, byClass, m, values =>
      applyAttributes attributes byName byClass m values

/-- The loop of `config_object::apply_overrides`. -/
def applyAttributes : List (Attribute V) → Option NodeId → ClassOverrides → L.Memory → Values V →
    Except Failure (L.Memory × Values V)
  | [], _, _, m, values => .ok (m, values)
  | i :: attributes, byName, byClass, m, values => do
      let (m, first) ←
        if i.className ≠ "" then
          match byClass.find? (":" ++ i.className) with
          | some n => i.applyOverrides (some n) byClass m values.first
          | none => .ok (m, values.first)
        else .ok (m, values.first)
      let (newScope, m) := clone L byClass m
      let nested := L.nested m byName i.name
      let (newScope, m) ← merge L newScope nested m
      let (m, first) ← i.applyOverrides nested newScope m first
      let (m, rest) ← applyAttributes attributes byName byClass m values.rest
      .ok (m, Values.cons first rest)

end

/-- `config_object::apply_overrides` with a document. -/
def applyOverrides (attributes : List (Attribute V)) (doc : NodeId) (m : L.Memory)
    (values : Values V) : Except Failure (L.Memory × Values V) := do
  let (byClass, m) ← merge L Containers.OrderedMap.empty (some doc) m
  applyAttributes L attributes (some doc) byClass m values

end Overrides

/-! ## The leaves of a configuration -/

/-- A scalar of a configuration: the names that lead to the object that owns it, the class of this
object, and the attribute itself. -/
structure Leaf (V : Type) where
  owner : List String
  ownerClass : String
  descriptor : Descriptor
  convert : String → Option V

/-- The leaf as seen from the object around. -/
def Leaf.under (leaf : Leaf V) (name : String) : Leaf V := { leaf with owner := name :: leaf.owner }

/-- The leaf at an address of an object of the given class. -/
def leafAt? : String → List (Attribute V) → List Nat → Option (Leaf V)
  | _, _, [] => none
  | ownerClass, attributes, i :: address =>
      match attributes[i]? with
      | none => none
      | some (.scalar d convert) => if address = [] then some ⟨[], ownerClass, d, convert⟩ else none
      | some (.object d attributes) =>
          (leafAt? d.className attributes address).map fun leaf => leaf.under d.name

section LeafAt

variable (ownerClass : String) (d : Descriptor) (attributes rest : List (Attribute V))

@[simp] theorem leafAt?_scalar_first (convert : String → Option V) :
    leafAt? ownerClass (.scalar d convert :: rest) [0] = some ⟨[], ownerClass, d, convert⟩ := rfl

@[simp] theorem leafAt?_object_first (address : List Nat) :
    leafAt? ownerClass (.object d attributes :: rest) (0 :: address) =
      (leafAt? d.className attributes address).map fun leaf => leaf.under d.name := rfl

@[simp] theorem leafAt?_rest (i : Attribute V) (k : Nat) (address : List Nat) :
    leafAt? ownerClass (i :: rest) ((k + 1) :: address) = leafAt? ownerClass rest (k :: address) := by
  rw [leafAt?, leafAt?, List.getElem?_cons_succ]

/-- The owner of a leaf with no names before it is the object itself. -/
theorem ownerClass_of_leafAt? {address : List Nat} {leaf : Leaf V}
    (h : leafAt? ownerClass attributes address = some leaf) (howner : leaf.owner = []) :
    leaf.ownerClass = ownerClass := by
  cases address with
  | nil => cases h
  | cons i address =>
      rw [leafAt?] at h
      cases hi : attributes[i]? with
      | none => simp [hi] at h
      | some a =>
          cases a with
          | scalar d convert =>
              simp only [hi] at h
              split at h
              · cases h
                rfl
              · cases h
          | object d attributes =>
              simp only [hi, Option.map_eq_some_iff] at h
              obtain ⟨inner, -, rfl⟩ := h
              cases howner

end LeafAt

/-- Induction on a list of attributes, through the objects that it holds. -/
theorem Attribute.listInduction {motive : List (Attribute V) → Prop} (nil : motive [])
    (scalar : ∀ d convert rest, motive rest → motive (.scalar d convert :: rest))
    (object : ∀ d attributes rest, motive attributes → motive rest →
      motive (.object d attributes :: rest)) : ∀ attributes, motive attributes
  | [] => nil
  | .scalar d convert :: rest => scalar d convert rest (listInduction nil scalar object rest)
  | .object d attributes :: rest =>
      object d attributes rest (listInduction nil scalar object attributes)
        (listInduction nil scalar object rest)

end JayBeams.Config
