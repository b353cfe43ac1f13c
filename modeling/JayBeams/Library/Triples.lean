import JayBeams.Library.Simulation

/-!
# Pre- and postconditions of state computations

`Meets P act Q E` says that a state computation with exceptions, started in a state that satisfies `P`,
returns a value and a state that satisfy `Q` or raises an exception in a state that satisfy `E`. It is
proved along the structure of the computation.

A computation on one component of a pair leaves what is known of the other one as it is (`onFst`,
`onSnd`).
-/

set_option autoImplicit false

namespace Machines

universe u

/-- The computation returned with `Q`, or raised with `E`. -/
def Fulfils {ε σ α : Type u} (Q : α → σ → Prop) (E : ε → σ → Prop) : EStateM.Result ε σ α → Prop
  | .ok a s => Q a s
  | .error e s => E e s

/-- A computation that fulfils its conditions from a state, and another one from wherever it ends. -/
theorem Fulfils.bind {ε σ α β : Type u} {Q : α → σ → Prop} {E F : ε → σ → Prop} {R : β → σ → Prop}
    {act : EStateM ε σ α} {next : α → EStateM ε σ β} {s : σ} (h : Fulfils Q E (act.run s))
    (hnext : ∀ a t, Q a t → Fulfils R F ((next a).run t)) (hraise : ∀ e t, E e t → F e t) :
    Fulfils R F ((act >>= next).run s) := by
  rw [EStateM.run_bind]
  cases hrun : act.run s with
  | ok a t =>
      rw [hrun] at h
      exact hnext a t h
  | error e t =>
      rw [hrun] at h
      exact hraise e t h

/-- From the states that satisfy `P`, the computation returns with `Q` or raises with `E`. -/
structure Meets {ε σ α : Type u} (P : σ → Prop) (act : EStateM ε σ α) (Q : α → σ → Prop)
    (E : ε → σ → Prop) : Prop where
  fulfils : ∀ s, P s → Fulfils Q E (act.run s)

namespace Meets

variable {ε σ τ α β : Type u} {P : σ → Prop} {Q : α → σ → Prop} {E : ε → σ → Prop}
  {act : EStateM ε σ α}

theorem pure {a : α} (h : ∀ s, P s → Q a s) : Meets P (Pure.pure a : EStateM ε σ α) Q E :=
  ⟨h⟩

theorem throw {e : ε} (h : ∀ s, P s → E e s) :
    Meets P (MonadExcept.throw e : EStateM ε σ α) Q E :=
  ⟨h⟩

theorem get : Meets P (MonadState.get : EStateM ε σ σ) (fun a s => a = s ∧ P s) E :=
  ⟨fun _ h => ⟨rfl, h⟩⟩

theorem modify {f : σ → σ} {Q : PUnit → σ → Prop} (h : ∀ s, P s → Q PUnit.unit (f s)) :
    Meets P (modifyGet fun s => (PUnit.unit, f s) : EStateM ε σ PUnit) Q E :=
  ⟨h⟩

/-- A computation in two parts. -/
theorem bind {next : α → EStateM ε σ β} {R : β → σ → Prop} (hact : Meets P act Q E)
    (hnext : ∀ a, Meets (Q a) (next a) R E) : Meets P (act >>= next) R E :=
  ⟨fun s hs => (hact.fulfils s hs).bind (fun a t ht => (hnext a).fulfils t ht) fun _ _ h => h⟩

/-- Nothing is asked of a computation. -/
theorem trivial : Meets (fun _ => True) act (fun _ _ => True) (fun _ _ => True) := by
  constructor
  intro s _
  cases act.run s with
  | ok a t => exact True.intro
  | error e t => exact True.intro

theorem imp {P' : σ → Prop} {Q' : α → σ → Prop} {E' : ε → σ → Prop} (h : Meets P act Q E)
    (hP : ∀ s, P' s → P s) (hQ : ∀ a s, Q a s → Q' a s) (hE : ∀ e s, E e s → E' e s) :
    Meets P' act Q' E' := by
  constructor
  intro s hs
  have hmid := h.fulfils s (hP s hs)
  cases hrun : act.run s with
  | ok a t =>
      rw [hrun] at hmid
      exact hQ a t hmid
  | error e t =>
      rw [hrun] at hmid
      exact hE e t hmid

/-- What a computation keeps -/
theorem of_invariant {I : σ → Prop} (h : Machine.Keeps I act) :
    Meets I act (fun _ => I) (fun _ => I) := by
  constructor
  intro s hs
  have hend := h.final s hs
  cases hrun : act.run s with
  | ok a t =>
      rw [hrun] at hend
      exact hend
  | error e t =>
      rw [hrun] at hend
      exact hend

/-- A computation that keeps an invariant, and what it leaves behind when it returns. -/
theorem of_keeps {I : σ → Prop} (hkeeps : Machine.Keeps I act)
    (hok : ∀ s a s', P s → act.run s = .ok a s' → Q a s') :
    Meets (fun s => I s ∧ P s) act (fun a s => I s ∧ Q a s) (fun _ s => I s) := by
  constructor
  rintro s ⟨hI, hs⟩
  have hend := hkeeps.final s hI
  cases hrun : act.run s with
  | ok a s' =>
      rw [hrun] at hend
      exact ⟨hend, hok s a s' hs hrun⟩
  | error e s' =>
      rw [hrun] at hend
      exact hend

/-- A computation on the second component of a pair. -/
theorem onSnd (h : Meets P act Q E) :
    Meets (fun s : τ × σ => P s.2) (Machines.onSnd act) (fun a s => Q a s.2) (fun e s => E e s.2) := by
  constructor
  rintro ⟨t, s⟩ hs
  have hmid := h.fulfils s hs
  cases hrun : act.run s with
  | ok a s' =>
      rw [hrun] at hmid
      rw [onSnd_run_ok hrun]
      exact hmid
  | error e s' =>
      rw [hrun] at hmid
      rw [onSnd_run_error hrun]
      exact hmid

/-- A computation on the first component says nothing of the second one. -/
theorem onFst_frame {F : τ → Prop} (act : EStateM ε σ α) :
    Meets (fun s : σ × τ => F s.2) (Machines.onFst act) (fun _ s => F s.2) (fun _ s => F s.2) := by
  constructor
  rintro ⟨s, t⟩ ht
  cases hrun : act.run s with
  | ok a s' =>
      rw [onFst_run_ok hrun]
      exact ht
  | error e s' =>
      rw [onFst_run_error hrun]
      exact ht

end Meets

end Machines
