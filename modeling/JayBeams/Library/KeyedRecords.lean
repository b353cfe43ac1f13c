import JayBeams.Library.OrderedMap
import JayBeams.Library.Triples

/-!
# Records by key

A record is kept for each key of a sequence of inputs, in an ordered map: an input creates the record
of its key when there is none, and updates it (`onEntry`). `After make act is x` says that `x` is what
the inputs `is` make of a fresh record.

`Grouped` is the invariant: there is a record exactly for the keys that occurred, and each of them is
what the inputs with its key make of a fresh record, in their order.
-/

set_option autoImplicit false

namespace Containers

open Machines

universe u v

/-- `x` is a fresh record after an update by each of the inputs. -/
inductive After {ε υ α : Type u} {ι : Type v} (make : Except ε υ) (act : ι → EStateM ε υ α) :
    List ι → υ → Prop
  | start {x : υ} (hmake : make = .ok x) : After make act [] x
  | next {is : List ι} {i : ι} {x y : υ} {a : α} (hx : After make act is x)
      (hrun : (act i).run x = .ok a y) : After make act (is ++ [i]) y

namespace OrderedMap

section Update

variable {ε κ υ α : Type u} {r : κ → κ → Prop} [DecidableEq κ] {make : Except ε υ} {k : κ}
  {act : EStateM ε υ α} {m m' : OrderedMap κ υ r} {a : α} {x : υ}

/-- Update the record of a key, which is the given one. -/
def updateEntry (k : κ) (x : υ) (act : EStateM ε υ α) : EStateM ε (OrderedMap κ υ r) α := fun m =>
  match act.run x with
  | .ok a y => .ok a (m.modify k fun _ => y)
  | .error e y => .error e (m.modify k fun _ => y)

theorem updateEntry_eq_ok (h : (updateEntry k x act).run m = .ok a m') :
    ∃ y, act.run x = .ok a y ∧ m' = m.modify k fun _ => y := by
  simp only [updateEntry, EStateM.run] at h ⊢
  cases hact : act x with
  | ok b y =>
      rw [hact] at h
      cases h
      exact ⟨y, rfl, rfl⟩
  | error e y =>
      rw [hact] at h
      cases h

theorem updateEntry_ok {y : υ} (hact : act.run x = .ok a y) :
    (updateEntry k x act).run m = .ok a (m.modify k fun _ => y) := by
  simp only [updateEntry, EStateM.run] at hact ⊢
  rw [hact]

variable [DecidableRel r] [IsStrictTotalOrder κ r]

/-- Update the record of a key, after making one if there is none. -/
def onEntry (make : Except ε υ) (k : κ) (act : EStateM ε υ α) : EStateM ε (OrderedMap κ υ r) α := do
  let m ← get
  match m.find? k with
  | some x => updateEntry k x act
  | none =>
      match make with
      | .error e => throw e
      | .ok x => do
          set (m.emplace k x)
          updateEntry k x act

/-- When the update returns, the record of the key is the updated one and the others are the same. -/
theorem onEntry_eq_ok (h : (onEntry make k act).run m = .ok a m') :
    ∃ x y, (m.find? k = some x ∨ m.find? k = none ∧ make = .ok x) ∧ act.run x = .ok a y ∧
      ∀ j, m'.find? j = if j = k then some y else m.find? j := by
  simp only [onEntry, EStateM.run_bind, EStateM.run_get] at h
  cases hfind : m.find? k with
  | some x =>
      rw [hfind] at h
      obtain ⟨y, hrun, rfl⟩ := updateEntry_eq_ok h
      refine ⟨x, y, Or.inl rfl, hrun, fun j => ?_⟩
      rw [find?_modify, hfind, Option.map_some]
  | none =>
      rw [hfind] at h
      cases hmake : make with
      | error e =>
          rw [hmake] at h
          cases h
      | ok x =>
          rw [hmake] at h
          obtain ⟨y, hrun, rfl⟩ := updateEntry_eq_ok h
          refine ⟨x, y, Or.inr ⟨rfl, rfl⟩, hrun, fun j => ?_⟩
          rw [find?_modify, find?_emplace, if_pos rfl, Option.map_some, find?_emplace]
          split_ifs <;> rfl

/-- An update that returns from every record with `P`, and so from a fresh one. -/
theorem onEntry_returns {P Q : υ → Prop} (hmake : ∃ x, make = .ok x ∧ P x)
    (hact : ∀ x, P x → ∃ a y, act.run x = .ok a y ∧ Q y) (hPQ : ∀ x, P x → Q x) (k : κ)
    (h : ∀ j x, m.find? j = some x → P x) :
    ∃ a m', (onEntry make k act).run m = .ok a m' ∧ ∀ j x, m'.find? j = some x → Q x := by
  obtain ⟨x₀, hmake, hx₀⟩ := hmake
  have hreturns : ∃ a m', (onEntry make k act).run m = .ok a m' := by
    simp only [onEntry, EStateM.run_bind, EStateM.run_get]
    cases hfind : m.find? k with
    | some x =>
        obtain ⟨a, y, hrun, -⟩ := hact x (h k x hfind)
        exact ⟨a, _, updateEntry_ok hrun⟩
    | none =>
        obtain ⟨a, y, hrun, -⟩ := hact x₀ hx₀
        rw [hmake]
        exact ⟨a, _, updateEntry_ok (m := m.emplace k x₀) hrun⟩
  obtain ⟨a, m', hrun⟩ := hreturns
  obtain ⟨x, y, hx, hupdate, hfind⟩ := onEntry_eq_ok hrun
  have hPx : P x := by
    rcases hx with hx | ⟨-, hx⟩
    · exact h k x hx
    · rw [hmake] at hx
      exact Except.ok.inj hx ▸ hx₀
  refine ⟨a, m', hrun, fun j z hz => ?_⟩
  rw [hfind] at hz
  split_ifs at hz with hj
  · obtain ⟨b, y', hrun', hQ⟩ := hact x hPx
    rw [hupdate] at hrun'
    cases hrun'
    exact Option.some.inj hz ▸ hQ
  · exact hPQ z (h j z hz)

end Update

section Groups

variable {ε κ υ α : Type u} {ι : Type v} {r : κ → κ → Prop} [DecidableEq κ]

/-- The records after some inputs: one for each key, made from the inputs with that key. -/
structure Grouped (make : Except ε υ) (act : ι → EStateM ε υ α) (key : ι → κ) (is : List ι)
    (m : OrderedMap κ υ r) : Prop where
  keys : ∀ k, m.find? k = none ↔ ∀ i ∈ is, key i ≠ k
  records : ∀ k x, m.find? k = some x → After make act (is.filter fun i => key i = k) x

variable {make : Except ε υ} {act : ι → EStateM ε υ α} {key : ι → κ} {is : List ι} {i : ι} {a : α}
  {m m' : OrderedMap κ υ r}

theorem Grouped.empty : Grouped make act key [] (empty : OrderedMap κ υ r) where
  keys k := by simp
  records k x h := by
    rw [find?_empty] at h
    cases h

/-- The keys of the records are those of the inputs. -/
theorem Grouped.mem_keys_iff (h : Grouped make act key is m) (k : κ) :
    k ∈ m.entries.map Prod.fst ↔ ∃ i ∈ is, key i = k := by
  have hmem : k ∈ m.entries.map Prod.fst ↔ m.find? k ≠ none := by
    rw [List.mem_map, Ne, OrderedMap.find?_eq_none_iff]
    simp
  rw [hmem, Ne, h.keys]
  simp

/-- One more input. -/
theorem Grouped.onEntry [DecidableRel r] [IsStrictTotalOrder κ r] (h : Grouped make act key is m)
    (hrun : (onEntry make (key i) (act i)).run m = .ok a m') :
    Grouped make act key (is ++ [i]) m' := by
  obtain ⟨x, y, hx, hact, hfind⟩ := onEntry_eq_ok hrun
  have hafter : After make act (is.filter fun j => key j = key i) x := by
    rcases hx with hx | ⟨hnone, hmake⟩
    · exact h.records _ _ hx
    · have hall : is.filter (fun j => key j = key i) = [] := by
        rw [List.filter_eq_nil_iff]
        intro j hj
        simpa using (h.keys (key i)).1 hnone j hj
      rw [hall]
      exact .start hmake
  constructor
  · intro k
    rw [hfind]
    by_cases hk : k = key i
    · rw [if_pos hk]
      constructor
      · intro hsome
        cases hsome
      · intro hall
        exact absurd hk.symm (hall i (List.mem_append_right _ (List.mem_singleton.2 rfl)))
    · rw [if_neg hk, h.keys k, List.forall_mem_append, List.forall_mem_singleton]
      exact ⟨fun hall => ⟨hall, fun hi => hk hi.symm⟩, fun hall => hall.1⟩
  · intro k z hz
    rw [hfind] at hz
    rw [List.filter_append]
    by_cases hk : k = key i
    · rw [if_pos hk] at hz
      obtain rfl := Option.some.inj hz
      subst hk
      rw [List.filter_cons_of_pos (by simp), List.filter_nil]
      exact .next hafter hact
    · rw [if_neg hk] at hz
      rw [List.filter_cons_of_neg (by simpa using fun hi => hk hi.symm), List.filter_nil,
        List.append_nil]
      exact h.records k z hz

end Groups

/-! ## Related records -/

section Related

variable {ε κ υ ω α β : Type u} {χ : Type v} {r : κ → κ → Prop} [DecidableEq κ] {V : υ → ω → Prop}
  {m : OrderedMap κ υ r} {n : OrderedMap κ ω r}

/-- The two maps have the same keys, with related records. -/
def SameEntries (V : υ → ω → Prop) (m : OrderedMap κ υ r) (n : OrderedMap κ ω r) : Prop :=
  List.Forall₂ (fun e f => e.1 = f.1 ∧ V e.2 f.2) m.entries n.entries

omit [DecidableEq κ] in
theorem SameEntries.empty :
    SameEntries V (empty : OrderedMap κ υ r) (OrderedMap.empty : OrderedMap κ ω r) :=
  List.Forall₂.nil

omit [DecidableEq κ] in
theorem SameEntries.symm (h : SameEntries V m n) : SameEntries (fun y x => V x y) n m :=
  (List.Forall₂.imp (fun _ _ hef => ⟨hef.1.symm, hef.2⟩) h : List.Forall₂ (flip _) _ _).flip

omit [DecidableEq κ] in
theorem SameEntries.trans {τ : Type u} {U : ω → τ → Prop} {p : OrderedMap κ τ r}
    (h : SameEntries V m n) (h' : SameEntries U n p) :
    SameEntries (fun x z => ∃ y, V x y ∧ U y z) m p := by
  obtain ⟨es, hes⟩ := m
  obtain ⟨fs, hfs⟩ := n
  obtain ⟨gs, hgs⟩ := p
  simp only [SameEntries] at h h' ⊢
  clear hes hfs hgs
  induction h generalizing gs with
  | nil =>
      cases h'
      exact .nil
  | @cons e f es fs hef _ ih =>
      cases h' with
      | cons hfg hrest => exact .cons ⟨hef.1.trans hfg.1, f.2, hef.2, hfg.2⟩ (ih _ hrest)

theorem SameEntries.find? (h : SameEntries V m n) (k : κ) : Option.Rel V (m.find? k) (n.find? k) := by
  obtain ⟨es, hes⟩ := m
  obtain ⟨fs, hfs⟩ := n
  simp only [SameEntries, OrderedMap.find?] at h ⊢
  clear hes hfs
  induction h with
  | nil => exact .none
  | @cons e f es fs hef _ ih =>
      rw [List.lookup_cons, List.lookup_cons, hef.1]
      cases k == f.1 with
      | true => exact .some hef.2
      | false => exact ih

theorem SameEntries.modify (h : SameEntries V m n) (k : κ) {g : υ → υ} {g' : ω → ω}
    (hg : ∀ x y, V x y → V (g x) (g' y)) : SameEntries V (m.modify k g) (n.modify k g') := by
  simp only [SameEntries, OrderedMap.modify, List.forall₂_map_left_iff, List.forall₂_map_right_iff]
  refine List.Forall₂.imp (fun e f hef => ?_) h
  rw [hef.1]
  split
  · exact ⟨rfl, hg _ _ hef.2⟩
  · exact hef

omit [DecidableEq κ] in
theorem SameEntries.emplace [DecidableRel r] [IsTrans κ r] (h : SameEntries V m n) (k : κ) {x : υ}
    {y : ω} (hxy : V x y) : SameEntries V (m.emplace k x) (n.emplace k y) := by
  obtain ⟨es, hes⟩ := m
  obtain ⟨fs, hfs⟩ := n
  simp only [SameEntries, OrderedMap.emplace] at h ⊢
  clear hes hfs
  induction h with
  | nil => exact .cons ⟨rfl, hxy⟩ .nil
  | @cons e f es fs hef hrest ih =>
      rw [insertEntry, insertEntry, hef.1]
      split
      · exact .cons ⟨rfl, hxy⟩ (.cons hef hrest)
      · split
        · exact .cons hef ih
        · exact .cons hef hrest

/-- Related updates keep the records related. -/
theorem updateEntry_simulates {kind : ε → χ} {W : α → β → Prop} {act : EStateM ε υ α}
    {act' : EStateM ε ω β} (hact : Simulates kind V W act act') (k : κ) {x : υ} {y : ω} (hxy : V x y) :
    Simulates kind (SameEntries (r := r) V) W (updateEntry k x act) (updateEntry k y act') := by
  constructor
  intro m n h
  have hends := hact.ends x y hxy
  simp only [EStateM.run] at hends
  simp only [EStateM.run, updateEntry]
  cases hx : act x with
  | ok a x' =>
      cases hy : act' y with
      | ok b y' =>
          rw [hx, hy] at hends
          exact ⟨hends.1, h.modify k fun _ _ _ => hends.2⟩
      | error e y' =>
          rw [hx, hy] at hends
          exact hends.elim
  | error e x' =>
      cases hy : act' y with
      | ok b y' =>
          rw [hx, hy] at hends
          exact hends.elim
      | error e' y' =>
          rw [hx, hy] at hends
          exact ⟨hends.1, h.modify k fun _ _ _ => hends.2⟩

theorem onEntry_simulates [DecidableRel r] [IsStrictTotalOrder κ r] {kind : ε → χ} {W : α → β → Prop}
    {act : EStateM ε υ α} {act' : EStateM ε ω β} {make : Except ε υ} {make' : Except ε ω}
    (hmake : SameResult V make make') (hact : Simulates kind V W act act') (k : κ) :
    Simulates kind (SameEntries (r := r) V) W (onEntry make k act) (onEntry make' k act') := by
  apply Simulates.bind Simulates.get
  intro m n h
  have hfind := h.find? k
  cases hm : m.find? k with
  | none =>
      cases hn : n.find? k with
      | some y =>
          rw [hm, hn] at hfind
          cases hfind
      | none =>
          cases hmake with
          | error e => exact Simulates.throw rfl
          | ok hxy =>
              apply Simulates.bind (Simulates.set (h.emplace k hxy))
              intro _ _ _
              exact updateEntry_simulates hact k hxy
  | some x =>
      cases hn : n.find? k with
      | none =>
          rw [hm, hn] at hfind
          cases hfind
      | some y =>
          rw [hm, hn] at hfind
          cases hfind with
          | some hxy => exact updateEntry_simulates hact k hxy

end Related

end OrderedMap

end Containers
