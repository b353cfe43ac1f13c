import JayBeams.Library.Machine

/-!
# Simulations between state computations

`Simulates kind R V x y` says that two state computations with exceptions, started in related states,
end in the same way: both return related values or both raise exceptions of one kind, and the states
reached are related again. It is proved along the structure of the computations, by `bind`, `forM` and
`quiet_bind`, the rule for a step that one of the two takes alone.

`onFst` and `onSnd` run a computation on one component of a pair.
-/

set_option autoImplicit false

namespace Machines

universe u v w x

/-- Both computations returned related values, or both raised exceptions of one kind, and the states
are related. -/
def Ends {ε σ τ α β : Type u} {κ : Type v} (kind : ε → κ) (R : σ → τ → Prop) (V : α → β → Prop) :
    EStateM.Result ε σ α → EStateM.Result ε τ β → Prop
  | .ok a s, .ok b t => V a b ∧ R s t
  | .error e s, .error e' t => kind e = kind e' ∧ R s t
  | .ok _ _, .error _ _ => False
  | .error _ _, .ok _ _ => False

theorem Ends.imp {ε σ τ α β : Type u} {κ : Type v} {kind : ε → κ} {R S : σ → τ → Prop}
    {V W : α → β → Prop} {x : EStateM.Result ε σ α} {y : EStateM.Result ε τ β}
    (h : Ends kind R V x y) (hRS : ∀ s t, R s t → S s t) (hVW : ∀ a b, V a b → W a b) :
    Ends kind S W x y := by
  cases x with
  | ok a s =>
      cases y with
      | ok b t => exact ⟨hVW a b h.1, hRS s t h.2⟩
      | error e t => exact h
  | error e s =>
      cases y with
      | ok b t => exact h
      | error e' t => exact ⟨h.1, hRS s t h.2⟩

/-- Two computations that end in the same way, followed by two that do so from the states they reach. -/
theorem Ends.bind {ε σ τ α β γ δ : Type u} {κ : Type v} {kind : ε → κ} {R S : σ → τ → Prop}
    {V : α → β → Prop} {W : γ → δ → Prop} {x : EStateM ε σ α} {y : EStateM ε τ β}
    {f : α → EStateM ε σ γ} {g : β → EStateM ε τ δ} {s : σ} {t : τ}
    (h : Ends kind R V (x.run s) (y.run t))
    (hnext : ∀ a b s' t', V a b → R s' t' → Ends kind S W ((f a).run s') ((g b).run t'))
    (hstop : ∀ s' t', R s' t' → S s' t') :
    Ends kind S W ((x >>= f).run s) ((y >>= g).run t) := by
  rw [EStateM.run_bind, EStateM.run_bind]
  cases hx : x.run s with
  | ok a s' =>
      cases hy : y.run t with
      | ok b t' =>
          rw [hx, hy] at h
          exact hnext a b s' t' h.1 h.2
      | error e t' =>
          rw [hx, hy] at h
          exact h.elim
  | error e s' =>
      cases hy : y.run t with
      | ok b t' =>
          rw [hx, hy] at h
          exact h.elim
      | error e' t' =>
          rw [hx, hy] at h
          exact ⟨h.1, hstop s' t' h.2⟩

theorem Ends.of_ok {ε σ τ α β : Type u} {κ : Type v} {kind : ε → κ} {R : σ → τ → Prop}
    {V : α → β → Prop} {x : EStateM.Result ε σ α} {b : β} {t : τ} (h : Ends kind R V x (.ok b t)) :
    ∃ a s, x = .ok a s ∧ V a b ∧ R s t := by
  cases x with
  | ok a s => exact ⟨a, s, rfl, h⟩
  | error e s => exact h.elim

theorem Ends.symm {ε σ τ α β : Type u} {κ : Type v} {kind : ε → κ} {R : σ → τ → Prop}
    {V : α → β → Prop} {x : EStateM.Result ε σ α} {y : EStateM.Result ε τ β} (h : Ends kind R V x y) :
    Ends kind (fun t s => R s t) (fun b a => V a b) y x := by
  cases x with
  | ok a s =>
      cases y with
      | ok b t => exact h
      | error e t => exact h
  | error e s =>
      cases y with
      | ok b t => exact h
      | error e' t => exact ⟨h.1.symm, h.2⟩

theorem Ends.trans {ε σ τ μ α β ζ : Type u} {κ : Type v} {kind : ε → κ} {R : σ → τ → Prop}
    {S : τ → μ → Prop} {V : α → β → Prop} {U : β → ζ → Prop} {x : EStateM.Result ε σ α}
    {y : EStateM.Result ε τ β} {z : EStateM.Result ε μ ζ} (h : Ends kind R V x y)
    (h' : Ends kind S U y z) :
    Ends kind (fun s m => ∃ t, R s t ∧ S t m) (fun a c => ∃ b, V a b ∧ U b c) x z := by
  cases y with
  | ok b t =>
      cases x with
      | error e s => exact h.elim
      | ok a s =>
          cases z with
          | ok c m => exact ⟨⟨b, h.1, h'.1⟩, t, h.2, h'.2⟩
          | error e m => exact h'.elim
  | error e t =>
      cases x with
      | ok a s => exact h.elim
      | error e' s =>
          cases z with
          | ok c m => exact h'.elim
          | error e'' m => exact ⟨h.1.trans h'.1, t, h.2, h'.2⟩

/-- Two computations keep their states related and end in the same way. -/
structure Simulates {ε σ τ α β : Type u} {κ : Type v} (kind : ε → κ) (R : σ → τ → Prop)
    (V : α → β → Prop) (x : EStateM ε σ α) (y : EStateM ε τ β) : Prop where
  ends : ∀ s t, R s t → Ends kind R V (x.run s) (y.run t)

/-- Run a computation on the first component of a pair. -/
def onFst {ε σ τ α : Type u} (act : EStateM ε σ α) : EStateM ε (σ × τ) α := fun s =>
  match act.run s.1 with
  | .ok a t => .ok a (t, s.2)
  | .error e t => .error e (t, s.2)

/-- Run a computation on the second component of a pair. -/
def onSnd {ε σ τ α : Type u} (act : EStateM ε τ α) : EStateM ε (σ × τ) α := fun s =>
  match act.run s.2 with
  | .ok a t => .ok a (s.1, t)
  | .error e t => .error e (s.1, t)

section Components

variable {ε σ τ α : Type u}

theorem onFst_run_ok {act : EStateM ε σ α} {s : σ × τ} {a : α} {t : σ} (h : act.run s.1 = .ok a t) :
    (onFst act).run s = .ok a (t, s.2) := by
  simp only [EStateM.run, onFst] at h ⊢
  rw [h]

theorem onFst_run_error {act : EStateM ε σ α} {s : σ × τ} {e : ε} {t : σ}
    (h : act.run s.1 = .error e t) : (onFst act).run s = .error e (t, s.2) := by
  simp only [EStateM.run, onFst] at h ⊢
  rw [h]

theorem onSnd_run_ok {act : EStateM ε τ α} {s : σ × τ} {a : α} {t : τ} (h : act.run s.2 = .ok a t) :
    (onSnd act).run s = .ok a (s.1, t) := by
  simp only [EStateM.run, onSnd] at h ⊢
  rw [h]

theorem onSnd_run_error {act : EStateM ε τ α} {s : σ × τ} {e : ε} {t : τ}
    (h : act.run s.2 = .error e t) : (onSnd act).run s = .error e (s.1, t) := by
  simp only [EStateM.run, onSnd] at h ⊢
  rw [h]

end Components

namespace Simulates

variable {ε σ τ α β γ δ : Type u} {κ : Type v} {kind : ε → κ} {R : σ → τ → Prop} {V : α → β → Prop}

theorem pure {a : α} {b : β} (h : V a b) :
    Simulates kind R V (Pure.pure a : EStateM ε σ α) (Pure.pure b : EStateM ε τ β) :=
  ⟨fun _ _ hst => ⟨h, hst⟩⟩

theorem throw {e e' : ε} (h : kind e = kind e') :
    Simulates kind R V (MonadExcept.throw e : EStateM ε σ α)
      (MonadExcept.throw e' : EStateM ε τ β) :=
  ⟨fun _ _ hst => ⟨h, hst⟩⟩

theorem get : Simulates kind R R (MonadState.get : EStateM ε σ σ) (MonadState.get : EStateM ε τ τ) :=
  ⟨fun _ _ hst => ⟨hst, hst⟩⟩

theorem modify {f : σ → σ} {g : τ → τ} (h : ∀ s t, R s t → R (f s) (g t)) :
    Simulates kind R (fun _ _ => True) (modifyGet fun s => (PUnit.unit, f s) : EStateM ε σ PUnit)
      (modifyGet fun t => (PUnit.unit, g t) : EStateM ε τ PUnit) :=
  ⟨fun s t hst => ⟨trivial, h s t hst⟩⟩

theorem set {s : σ} {t : τ} (h : R s t) :
    Simulates kind R (fun _ _ => True) (MonadStateOf.set s : EStateM ε σ PUnit)
      (MonadStateOf.set t : EStateM ε τ PUnit) :=
  ⟨fun _ _ _ => ⟨trivial, h⟩⟩

/-- A computation follows itself. -/
theorem refl (kind : ε → κ) (x : EStateM ε σ α) : Simulates kind Eq Eq x x := by
  constructor
  rintro s _ rfl
  cases x.run s with
  | ok a s' => exact ⟨rfl, rfl⟩
  | error e s' => exact ⟨rfl, rfl⟩

theorem imp {W : α → β → Prop} {x : EStateM ε σ α} {y : EStateM ε τ β} (h : Simulates kind R V x y)
    (hVW : ∀ a b, V a b → W a b) : Simulates kind R W x y :=
  ⟨fun s t hst => (h.ends s t hst).imp (fun _ _ h => h) hVW⟩

/-- Computations one after the other. -/
theorem bind {W : γ → δ → Prop} {x : EStateM ε σ α} {y : EStateM ε τ β} {f : α → EStateM ε σ γ}
    {g : β → EStateM ε τ δ} (hxy : Simulates kind R V x y)
    (hfg : ∀ a b, V a b → Simulates kind R W (f a) (g b)) :
    Simulates kind R W (x >>= f) (y >>= g) := by
  constructor
  intro s t hst
  apply (hxy.ends s t hst).bind
  · intro a b s' t' hab hst'
    exact (hfg a b hab).ends s' t' hst'
  · exact fun _ _ h => h

/-- A step that always returns and leaves the states related needs no counterpart. -/
theorem quiet_bind {x : EStateM ε σ α} {f : α → EStateM ε σ γ} {W : γ → β → Prop}
    {y : EStateM ε τ β}
    (hx : ∀ s t, R s t → ∃ a s', x.run s = .ok a s' ∧ R s' t)
    (hf : ∀ a, Simulates kind R W (f a) y) : Simulates kind R W (x >>= f) y := by
  constructor
  intro s t hst
  obtain ⟨a, s', hrun, hst'⟩ := hx s t hst
  rw [EStateM.run_bind, hrun]
  exact (hf a).ends s' t hst'

/-- Loops over related lists. -/
theorem forM {ι : Type w} {ο : Type x} {P : ι → ο → Prop} {f : ι → EStateM ε σ PUnit}
    {g : ο → EStateM ε τ PUnit} (hbody : ∀ i o, P i o → Simulates kind R (fun _ _ => True) (f i) (g o))
    {is : List ι} {os : List ο} (h : List.Forall₂ P is os) :
    Simulates kind R (fun _ _ => True) (is.forM f) (os.forM g) := by
  induction h with
  | nil => exact pure trivial
  | cons hio _ ih => exact (hbody _ _ hio).bind fun _ _ _ => ih

/-- Two computations on the first components that end in the same way, with the second ones related. -/
theorem onFst_ends {μ ν : Type u} {P : μ → ν → Prop} {x : EStateM ε σ α} {y : EStateM ε τ β}
    {s : σ × μ} {t : τ × ν} (h : Ends kind R V (x.run s.1) (y.run t.1)) (hst : P s.2 t.2) :
    Ends kind (fun s t => R s.1 t.1 ∧ P s.2 t.2) V ((Machines.onFst x).run s)
      ((Machines.onFst y).run t) := by
  cases hx : x.run s.1 with
  | ok a s' =>
      rw [hx] at h
      cases hy : y.run t.1 with
      | ok b t' =>
          rw [hy] at h
          rw [onFst_run_ok hx, onFst_run_ok hy]
          exact ⟨h.1, h.2, hst⟩
      | error e t' =>
          rw [hy] at h
          exact h.elim
  | error e s' =>
      rw [hx] at h
      cases hy : y.run t.1 with
      | ok b t' =>
          rw [hy] at h
          exact h.elim
      | error e' t' =>
          rw [hy] at h
          rw [onFst_run_error hx, onFst_run_error hy]
          exact ⟨h.1, h.2, hst⟩

/-- Computations on the second components, with the first ones related. -/
theorem onSnd {μ ν : Type u} {P : μ → ν → Prop} {x : EStateM ε σ α} {y : EStateM ε τ β}
    (h : Simulates kind R V x y) :
    Simulates kind (fun s t => P s.1 t.1 ∧ R s.2 t.2) V (Machines.onSnd x) (Machines.onSnd y) := by
  constructor
  rintro ⟨m, s⟩ ⟨n, t⟩ ⟨hmn, hst⟩
  have hends := h.ends s t hst
  cases hx : x.run s with
  | ok a s' =>
      cases hy : y.run t with
      | ok b t' =>
          rw [onSnd_run_ok hx, onSnd_run_ok hy]
          rw [hx, hy] at hends
          exact ⟨hends.1, hmn, hends.2⟩
      | error e t' =>
          rw [hx, hy] at hends
          exact hends.elim
  | error e s' =>
      cases hy : y.run t with
      | ok b t' =>
          rw [hx, hy] at hends
          exact hends.elim
      | error e' t' =>
          rw [onSnd_run_error hx, onSnd_run_error hy]
          rw [hx, hy] at hends
          exact ⟨hends.1, hmn, hends.2⟩

/-- A computation on the second component, when nothing is asked of the first one. -/
theorem onSnd_left {μ : Type u} {x : EStateM ε σ α} {y : EStateM ε τ β} (h : Simulates kind R V x y) :
    Simulates kind (fun (s : μ × σ) t => R s.2 t) V (Machines.onSnd x) y := by
  constructor
  rintro ⟨m, s⟩ t hst
  have hends := h.ends s t hst
  cases hx : x.run s with
  | ok a s' =>
      rw [hx] at hends
      rw [onSnd_run_ok hx]
      cases hy : y.run t <;> rw [hy] at hends <;> exact hends
  | error e s' =>
      rw [hx] at hends
      rw [onSnd_run_error hx]
      cases hy : y.run t <;> rw [hy] at hends <;> exact hends

/-- One computation on equal first components, whose value is used in two ways. -/
theorem onFst_map {μ ν : Type u} {Q : μ → ν → Prop} (x : EStateM ε σ α) (f : α → β) (g : α → γ) :
    Simulates kind (fun s t => s.1 = t.1 ∧ Q s.2 t.2) (fun b c => ∃ a, b = f a ∧ c = g a)
      (onFst (f <$> x)) (onFst (g <$> x)) := by
  constructor
  rintro ⟨s, m⟩ ⟨_, n⟩ ⟨rfl, hmn⟩
  rw [map_eq_pure_bind, map_eq_pure_bind]
  cases hx : x.run s with
  | ok a s' =>
      have hrun : ∀ {δ : Type u} (h : α → δ),
          (x >>= fun a => Pure.pure (h a) : EStateM ε σ δ).run s = .ok (h a) s' := fun h => by
        rw [EStateM.run_bind, hx]
        rfl
      rw [onFst_run_ok (hrun f), onFst_run_ok (hrun g)]
      exact ⟨⟨a, rfl, rfl⟩, rfl, hmn⟩
  | error e s' =>
      have hrun : ∀ {δ : Type u} (h : α → δ),
          (x >>= fun a => Pure.pure (h a) : EStateM ε σ δ).run s = .error e s' := fun h => by
        rw [EStateM.run_bind, hx]
      rw [onFst_run_error (hrun f), onFst_run_error (hrun g)]
      exact ⟨rfl, rfl, hmn⟩

/-- Two computations that follow a third one end in the same way. -/
theorem join {μ ζ : Type u} {S : μ → τ → Prop} {U : ζ → β → Prop} {x : EStateM ε σ α}
    {y : EStateM ε τ β} {z : EStateM ε μ ζ} (hx : Simulates kind R V x y)
    (hz : Simulates kind S U z y) {s : σ} {t : τ} {m : μ} (hs : R s t) (hm : S m t) :
    Ends kind (fun s m => ∃ t, R s t ∧ S m t) (fun a c => ∃ b, V a b ∧ U c b) (x.run s) (z.run m) :=
  (hx.ends s t hs).trans (hz.ends m t hm).symm

end Simulates

/-! ## Computations without state -/

/-- Both computations returned related values, or both raised the same exception. -/
inductive SameResult {ε : Type u} {α : Type v} {β : Type w} (V : α → β → Prop) :
    Except ε α → Except ε β → Prop
  | ok {a : α} {b : β} (h : V a b) : SameResult V (.ok a) (.ok b)
  | error (e : ε) : SameResult V (.error e) (.error e)

namespace SameResult

variable {ε : Type u} {α β γ δ : Type v} {V : α → β → Prop} {x : Except ε α} {y : Except ε β}

theorem refl (x : Except ε α) : SameResult Eq x x := by
  cases x with
  | ok a => exact .ok rfl
  | error e => exact .error e

theorem bind {W : γ → δ → Prop} {f : α → Except ε γ} {g : β → Except ε δ} (h : SameResult V x y)
    (hfg : ∀ a b, V a b → SameResult W (f a) (g b)) : SameResult W (x >>= f) (y >>= g) := by
  cases h with
  | ok hab => exact hfg _ _ hab
  | error e => exact .error e

theorem of_ok {b : β} (h : SameResult V x (.ok b)) : ∃ a, x = .ok a ∧ V a b := by
  cases h with
  | ok hab => exact ⟨_, rfl, hab⟩

/-- Loops over related lists. -/
theorem mapM {ι ο : Type w} {P : ι → ο → Prop} {f : ι → Except ε α} {g : ο → Except ε β}
    (hbody : ∀ i o, P i o → SameResult V (f i) (g o)) {is : List ι} {os : List ο}
    (h : List.Forall₂ P is os) : SameResult (List.Forall₂ V) (is.mapM f) (os.mapM g) := by
  induction h with
  | nil => exact .ok .nil
  | cons hio _ ih =>
      rw [List.mapM_cons, List.mapM_cons]
      apply (hbody _ _ hio).bind
      intro a b hab
      apply ih.bind
      intro as bs habs
      exact .ok (.cons hab habs)

end SameResult

end Machines
