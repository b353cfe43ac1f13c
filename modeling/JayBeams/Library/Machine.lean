import Mathlib.Data.List.Forall2

/-!
# Deterministic machines

A machine steps on one input at a time, producing one output. `Machine.run` consumes a list of
inputs and collects the outputs. `Machine.Along P s is` says that each step of the run from `s` on
`is` starts in a state and on an input related by `P`.

Four rules carry facts about one step to facts about a whole run: `run_invariant` for states,
`run_invariant_of_outputs` for states when the outputs are known, `run_outputs` for outputs, and
`run_simulation` for two machines that stay related and give related outputs. A state computation
with exceptions is a machine by `Machine.ofAction`; an exception keeps the state reached when it was
raised.
-/

set_option autoImplicit false

namespace Machines

universe u v w x y

/-- A deterministic machine with states `σ`, inputs `ι` and outputs `ο`. -/
structure Machine (σ : Type u) (ι : Type v) (ο : Type w) where
  step : σ → ι → ο × σ

namespace Machine

variable {σ : Type u} {ι : Type v} {ο : Type w}

/-- The outputs and the final state of a run. -/
def run (M : Machine σ ι ο) : σ → List ι → List ο × σ
  | s, [] => ([], s)
  | s, i :: is =>
      let rest := M.run (M.step s i).2 is
      ((M.step s i).1 :: rest.1, rest.2)

/-- Each step of the run from a state on a list of inputs satisfies `P`. -/
def Along (M : Machine σ ι ο) (P : σ → ι → Prop) : σ → List ι → Prop
  | _, [] => True
  | s, i :: is => P s i ∧ M.Along P (M.step s i).2 is

@[simp] theorem run_nil (M : Machine σ ι ο) (s : σ) : M.run s [] = ([], s) := rfl

@[simp] theorem run_cons (M : Machine σ ι ο) (s : σ) (i : ι) (is : List ι) :
    M.run s (i :: is) =
      ((M.step s i).1 :: (M.run (M.step s i).2 is).1, (M.run (M.step s i).2 is).2) := rfl

@[simp] theorem along_nil (M : Machine σ ι ο) (P : σ → ι → Prop) (s : σ) :
    M.Along P s [] ↔ True := Iff.rfl

@[simp] theorem along_cons (M : Machine σ ι ο) (P : σ → ι → Prop) (s : σ) (i : ι) (is : List ι) :
    M.Along P s (i :: is) ↔ P s i ∧ M.Along P (M.step s i).2 is := Iff.rfl

theorem run_append (M : Machine σ ι ο) (s : σ) (is js : List ι) :
    M.run s (is ++ js) =
      ((M.run s is).1 ++ (M.run (M.run s is).2 js).1, (M.run (M.run s is).2 js).2) := by
  induction is generalizing s with
  | nil => rfl
  | cons i is ih => simp [ih]

theorem along_append (M : Machine σ ι ο) (P : σ → ι → Prop) (s : σ) (is js : List ι) :
    M.Along P s (is ++ js) ↔ M.Along P s is ∧ M.Along P (M.run s is).2 js := by
  induction is generalizing s with
  | nil => simp
  | cons i is ih => simp [ih, and_assoc]

theorem along_of_forall (M : Machine σ ι ο) {P : σ → ι → Prop} {is : List ι}
    (h : ∀ i ∈ is, ∀ s, P s i) (s : σ) : M.Along P s is := by
  induction is generalizing s with
  | nil => trivial
  | cons i is ih => exact ⟨h i (by simp) s, ih (fun j hj => h j (by simp [hj])) _⟩

theorem Along.imp {M : Machine σ ι ο} {P Q : σ → ι → Prop} (hPQ : ∀ s i, P s i → Q s i) {s : σ}
    {is : List ι} (h : M.Along P s is) : M.Along Q s is := by
  induction is generalizing s with
  | nil => trivial
  | cons i is ih => exact ⟨hPQ s i h.1, ih h.2⟩

theorem Along.and {M : Machine σ ι ο} {P Q : σ → ι → Prop} {s : σ} {is : List ι}
    (hP : M.Along P s is) (hQ : M.Along Q s is) : M.Along (fun s i => P s i ∧ Q s i) s is := by
  induction is generalizing s with
  | nil => trivial
  | cons i is ih => exact ⟨⟨hP.1, hQ.1⟩, ih hP.2 hQ.2⟩

/-- An invariant preserved by each step of a run holds at its end. -/
theorem run_invariant {M : Machine σ ι ο} {P : σ → ι → Prop} {Inv : σ → Prop}
    (hstep : ∀ s i, Inv s → P s i → Inv (M.step s i).2) {s : σ} {is : List ι}
    (hP : M.Along P s is) (hs : Inv s) : Inv (M.run s is).2 := by
  induction is generalizing s with
  | nil => exact hs
  | cons i is ih => exact ih hP.2 (hstep s i hs hP.1)

/-- An invariant that each step with an allowed output preserves holds at the end of a run with
allowed outputs. -/
theorem run_invariant_of_outputs {M : Machine σ ι ο} {Inv : σ → Prop} {O : ο → Prop}
    (hstep : ∀ s i, Inv s → O (M.step s i).1 → Inv (M.step s i).2) {s : σ} {is : List ι}
    (hout : ∀ o ∈ (M.run s is).1, O o) (hs : Inv s) : Inv (M.run s is).2 := by
  induction is generalizing s with
  | nil => exact hs
  | cons i is ih =>
      rw [run_cons] at hout
      apply ih
      · intro o ho
        exact hout o (List.mem_cons_of_mem _ ho)
      · exact hstep s i hs (hout _ (List.mem_cons_self ..))

/-- A property of the output of each step from an invariant state holds of all outputs. -/
theorem run_outputs {M : Machine σ ι ο} {P : σ → ι → Prop} {Inv : σ → Prop} {O : ο → Prop}
    (hstep : ∀ s i, Inv s → P s i → Inv (M.step s i).2)
    (hout : ∀ s i, Inv s → P s i → O (M.step s i).1) {s : σ} {is : List ι}
    (hP : M.Along P s is) (hs : Inv s) : ∀ o ∈ (M.run s is).1, O o := by
  induction is generalizing s with
  | nil => simp
  | cons i is ih =>
      intro o ho
      rcases List.mem_cons.1 ho with rfl | ho
      · exact hout s i hs hP.1
      · exact ih hP.2 (hstep s i hs hP.1) o ho

/-- Two machines whose steps keep their states related and give related outputs do so over whole
runs. The condition `P` is asked of the steps of the second machine. -/
theorem run_simulation {τ : Type x} {π : Type y} {M : Machine σ ι ο} {N : Machine τ ι π}
    {R : σ → τ → Prop} {O : ο → π → Prop} {P : τ → ι → Prop}
    (hstep : ∀ s t i, R s t → P t i →
      O (M.step s i).1 (N.step t i).1 ∧ R (M.step s i).2 (N.step t i).2)
    {s : σ} {t : τ} {is : List ι} (hP : N.Along P t is) (hst : R s t) :
    List.Forall₂ O (M.run s is).1 (N.run t is).1 ∧ R (M.run s is).2 (N.run t is).2 := by
  induction is generalizing s t with
  | nil => exact ⟨List.Forall₂.nil, hst⟩
  | cons i is ih =>
      obtain ⟨hout, hnext⟩ := hstep s t i hst hP.1
      obtain ⟨houts, hend⟩ := ih hP.2 hnext
      exact ⟨List.Forall₂.cons hout houts, hend⟩

/-- A property of each step from an invariant state holds of each step of a run. -/
theorem Along.of_invariant {M : Machine σ ι ο} {P Q : σ → ι → Prop} {Inv : σ → Prop}
    (hstep : ∀ s i, Inv s → P s i → Inv (M.step s i).2 ∧ Q s i) {s : σ} {is : List ι}
    (hP : M.Along P s is) (hs : Inv s) : M.Along Q s is := by
  induction is generalizing s with
  | nil => trivial
  | cons i is ih =>
      obtain ⟨hnext, hq⟩ := hstep s i hs hP.1
      exact ⟨hq, ih hP.2 hnext⟩

/-- When a condition on the steps keeps an invariant and every other step ends in an unsafe state, a
run is safe throughout exactly when each of its steps meets the condition. -/
theorem along_iff_safe {M : Machine σ ι ο} {P : σ → ι → Prop} {Inv Safe : σ → Prop}
    (hsafe : ∀ s, Inv s → Safe s) (hkeep : ∀ s i, Inv s → P s i → Inv (M.step s i).2)
    (hbreak : ∀ s i, Inv s → ¬ P s i → ¬ Safe (M.step s i).2) {s : σ} (hs : Inv s) (is : List ι) :
    (∀ pre, pre <+: is → Safe (M.run s pre).2) ↔ M.Along P s is := by
  induction is generalizing s with
  | nil =>
      simp only [List.prefix_nil, forall_eq, along_nil, iff_true]
      exact hsafe s hs
  | cons i is ih =>
      constructor
      · intro h
        have hP : P s i := by
          by_contra hnot
          exact hbreak s i hs hnot (h [i] (by simp))
        refine ⟨hP, (ih (hkeep s i hs hP)).1 fun pre hpre => ?_⟩
        exact h (i :: pre) (List.cons_prefix_cons.2 ⟨rfl, hpre⟩)
      · rintro ⟨hP, hrest⟩ pre hpre
        rcases List.prefix_cons_iff.1 hpre with rfl | ⟨pre', rfl, hpre'⟩
        · exact hsafe s hs
        · exact (ih (hkeep s i hs hP)).2 hrest pre' hpre'

/-- The state in which a state computation ends, also when it raises. -/
def finalState {ε σ α : Type u} : EStateM.Result ε σ α → σ
  | .ok _ s => s
  | .error _ s => s

/-! ## Invariants of a state computation -/

/-- A state computation keeps a property of the state, whether it returns or raises. -/
structure Keeps {ε σ α : Type u} (Inv : σ → Prop) (act : EStateM ε σ α) : Prop where
  final : ∀ s, Inv s → Inv (finalState (act.run s))

namespace Keeps

variable {ε τ α β : Type u} {Inv : τ → Prop}

theorem pure (a : α) : Keeps Inv (Pure.pure a : EStateM ε τ α) := ⟨fun _ h => h⟩

theorem throw (e : ε) : Keeps Inv (MonadExcept.throw e : EStateM ε τ α) := ⟨fun _ h => h⟩

theorem get : Keeps Inv (MonadState.get : EStateM ε τ τ) := ⟨fun _ h => h⟩

theorem modify {f : τ → τ} (hf : ∀ s, Inv s → Inv (f s)) :
    Keeps Inv (modifyGet fun s => (PUnit.unit, f s) : EStateM ε τ PUnit) :=
  ⟨fun s h => hf s h⟩

/-- A computation keeps what both of its parts keep. -/
theorem bind {act : EStateM ε τ α} {next : α → EStateM ε τ β} (hact : Keeps Inv act)
    (hnext : ∀ a, Keeps Inv (next a)) : Keeps Inv (act >>= next) := by
  constructor
  intro s hs
  rw [EStateM.run_bind]
  have hmid := hact.final s hs
  cases hrun : act.run s with
  | ok a s' =>
      rw [hrun] at hmid
      exact (hnext a).final s' hmid
  | error e s' =>
      rw [hrun] at hmid
      exact hmid

end Keeps

/-- A computation in two parts returns when both of them do. -/
theorem run_bind_eq_ok {ε τ α β : Type u} {act : EStateM ε τ α} {next : α → EStateM ε τ β} {s s' : τ}
    {b : β} (h : (act >>= next).run s = .ok b s') :
    ∃ a t, act.run s = .ok a t ∧ (next a).run t = .ok b s' := by
  rw [EStateM.run_bind] at h
  cases hrun : act.run s with
  | ok a t =>
      rw [hrun] at h
      exact ⟨a, t, rfl, h⟩
  | error e t =>
      rw [hrun] at h
      cases h

/-- The machine that runs one state computation for each input. -/
def ofAction {ε α : Type u} {σ : Type u} (act : ι → EStateM ε σ α) :
    Machine σ ι (Except ε α) where
  step s i :=
    match (act i).run s with
    | .ok a s' => (.ok a, s')
    | .error e s' => (.error e, s')

section OfAction

variable {ε α : Type u} {τ : Type u} {act : ι → EStateM ε τ α} {t t' : τ} {i : ι}

theorem ofAction_step_ok {a : α} (h : (act i).run t = .ok a t') :
    (ofAction act).step t i = (.ok a, t') := by
  simp only [ofAction, h]

theorem ofAction_step_error {e : ε} (h : (act i).run t = .error e t') :
    (ofAction act).step t i = (.error e, t') := by
  simp only [ofAction, h]

theorem ofAction_step_state (act : ι → EStateM ε τ α) (t : τ) (i : ι) :
    ((ofAction act).step t i).2 = finalState ((act i).run t) := by
  simp only [ofAction]
  cases (act i).run t <;> rfl

end OfAction

end Machine

end Machines
