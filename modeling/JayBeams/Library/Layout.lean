import JayBeams.Library.Memory
import Mathlib.Logic.Function.Basic

/-!
# Messages of fixed layout

A message of fixed layout is a list of fields in the order of their offsets. Its decoder goes through
the fields and tests each of them. A guarded field is first found to lie inside the message; the
decoder of an unguarded one reads its byte from wherever it is. When every test succeeds the value of
the message is put together from its bytes.

Two buffers that start with the same message agree on its bytes and may differ after them.
`Layout.independent_iff` says exactly when the outcome of the decoder depends on nothing but the
message: the message is complete, or a field inside it is not valid, or a guarded field lies outside.
The other messages end right before a row of unguarded fields, and whether they are decoded depends on
what comes after them. `Layout.reads_lt_iff` says when the decoder reads no byte after the message:
of the fields that lie outside it is then the first that is guarded.
-/

set_option autoImplicit false

namespace Bytes

universe u v w

/-- Memories that agree on their first `n` bytes. -/
def Agree (n : Nat) (m m' : Memory) : Prop := ∀ i, i < n → m i = m' i

theorem Agree.mono {n k : Nat} {m m' : Memory} (h : Agree n m m') (hk : k ≤ n) : Agree k m m' :=
  fun i hi => h i (Nat.lt_of_lt_of_le hi hk)

theorem Agree.symm {n : Nat} {m m' : Memory} (h : Agree n m m') : Agree n m' m :=
  fun i hi => (h i hi).symm

theorem Agree.read_eq {n s k : Nat} {m m' : Memory} (h : Agree n m m') (hk : s + k ≤ n) :
    m.read s k = m'.read s k :=
  Memory.read_congr fun i hi => h (s + i) (by omega)

/-- Outcomes that a caller cannot tell apart: the same value, or exceptions of one kind. -/
def SameOutcome {ε : Type u} {κ : Type v} {α : Type w} (kind : ε → κ) (x y : Except ε α) : Prop :=
  x.mapError kind = y.mapError kind

section SameOutcome

variable {ε : Type u} {κ : Type v} {α : Type w} {kind : ε → κ} {x y : Except ε α}

theorem SameOutcome.refl (kind : ε → κ) (x : Except ε α) : SameOutcome kind x x := rfl

theorem sameOutcome_error {e e' : ε} (h : kind e = kind e') :
    SameOutcome kind (.error e : Except ε α) (.error e') :=
  congrArg Except.error h

theorem not_sameOutcome_ok_error (a : α) (e : ε) :
    ¬ SameOutcome kind (.ok a : Except ε α) (.error e) := by
  intro h
  cases h

end SameOutcome

/-! ## Fields -/

/-- A field of a message: its place, the exception of a decoder that finds it outside of a message of
the given size (none when the decoder does not look), and the test of its bytes. An unguarded field is
a single byte, which can pass its test and can fail it. Exceptions of a guard, and of the test of an
unguarded field, are of one kind `k₀`. -/
structure Field {ε : Type u} {κ : Type v} (kind : ε → κ) (k₀ : κ) where
  offset : Nat
  width : Nat
  outside : Option (Nat → ε)
  validate : List UInt8 → Except ε Unit
  width_pos : 0 < width
  kind_outside : ∀ e, outside = some e → ∀ size, kind (e size) = k₀
  width_unguarded : outside = none → width = 1
  kind_invalid : outside = none → ∀ bs e, validate bs = .error e → kind e = k₀
  exists_valid : outside = none → ∃ c, validate [c] = .ok ()
  exists_invalid : outside = none → ∃ c e, validate [c] = .error e

namespace Field

variable {ε : Type u} {κ : Type v} {kind : ε → κ} {k₀ : κ}

/-- The offset right after a field. -/
def stop (f : Field kind k₀) : Nat := f.offset + f.width

/-- The bytes of a field. -/
def bytes (f : Field kind k₀) (m : Memory) : List UInt8 := m.read f.offset f.width

/-- The bytes of a field pass its test. -/
def Valid (f : Field kind k₀) (m : Memory) : Prop := f.validate (f.bytes m) = .ok ()

/-- The decoder looks whether the field lies inside the message. -/
def Guarded (f : Field kind k₀) : Prop := f.outside ≠ none

/-- What the decoder of a field does before it uses the bytes. -/
def check (f : Field kind k₀) (size : Nat) (m : Memory) : Except ε Unit :=
  match f.outside with
  | some e => if f.stop ≤ size then f.validate (f.bytes m) else .error (e size)
  | none => f.validate (f.bytes m)

/-- The indexes of the bytes that the decoder of a field reads: none when it finds the field outside of
the message. -/
def reads (f : Field kind k₀) (size : Nat) : List Nat :=
  match f.outside with
  | some _ => if f.stop ≤ size then List.range' f.offset f.width else []
  | none => List.range' f.offset f.width

section Check

variable {f : Field kind k₀} {size : Nat} {m m' : Memory}

theorem check_inside (h : f.stop ≤ size) : f.check size m = f.validate (f.bytes m) := by
  rw [check]
  split
  · rw [if_pos h]
  · rfl

theorem check_unguarded (h : f.outside = none) : f.check size m = f.validate (f.bytes m) := by
  rw [check, h]

theorem check_outside {e : Nat → ε} (h : f.outside = some e) (hsize : size < f.stop) :
    f.check size m = .error (e size) := by
  simp only [check, h, if_neg (Nat.not_le.2 hsize)]

theorem bytes_congr (h : Agree f.stop m m') : f.bytes m = f.bytes m' :=
  h.read_eq (Nat.le_refl f.stop)

theorem Valid.congr (h : Agree f.stop m m') : f.Valid m ↔ f.Valid m' := by
  rw [Valid, Valid, bytes_congr h]

theorem bytes_single (h : f.width = 1) : f.bytes m = [m f.offset] := by
  rw [bytes, h, Memory.read_succ, Memory.read_zero]

theorem mem_reads_inside (h : f.stop ≤ size) {i : Nat} :
    i ∈ f.reads size ↔ f.offset ≤ i ∧ i < f.stop := by
  rw [reads]
  split
  · rw [if_pos h, List.mem_range'_1, stop]
  · rw [List.mem_range'_1, stop]

theorem mem_reads_unguarded (h : f.outside = none) {i : Nat} :
    i ∈ f.reads size ↔ i = f.offset := by
  rw [reads, h, List.mem_range'_1, f.width_unguarded h]
  omega

theorem reads_outside {e : Nat → ε} (h : f.outside = some e) (hsize : size < f.stop) :
    f.reads size = [] := by
  simp only [reads, h, if_neg (Nat.not_le.2 hsize)]

/-- The test of a field depends on nothing but the bytes that its decoder reads. -/
theorem check_eq_of_reads (h : ∀ i ∈ f.reads size, m i = m' i) :
    f.check size m = f.check size m' := by
  cases hguard : f.outside with
  | some e =>
      by_cases hin : f.stop ≤ size
      · have hbytes : f.bytes m = f.bytes m' := Memory.read_congr fun i hi => by
          refine h _ ((mem_reads_inside hin).2 ⟨Nat.le_add_right _ _, ?_⟩)
          exact Nat.add_lt_add_left hi f.offset
        rw [check_inside hin, check_inside hin, hbytes]
      · have hout := Nat.not_le.1 hin
        rw [check_outside hguard hout, check_outside hguard hout]
  | none =>
      have hwidth := f.width_unguarded hguard
      rw [check_unguarded hguard, check_unguarded hguard, bytes_single hwidth, bytes_single hwidth,
        h f.offset ((mem_reads_unguarded hguard).2 rfl)]

end Check

end Field

/-! ## Going through the fields -/

section CheckAll

variable {ε : Type u} {κ : Type v} {kind : ε → κ} {k₀ : κ}

/-- The tests of all fields, one after the other. -/
def checkAll (size : Nat) (m : Memory) : List (Field kind k₀) → Except ε Unit
  | [] => .ok ()
  | f :: fs =>
      match f.check size m with
      | .ok () => checkAll size m fs
      | .error e => .error e

/-- The indexes of the bytes that are read for the tests, up to the first that fails. -/
def readsAll (size : Nat) (m : Memory) : List (Field kind k₀) → List Nat
  | [] => []
  | f :: fs =>
      match f.check size m with
      | .ok () => f.reads size ++ readsAll size m fs
      | .error _ => f.reads size

/-- The offset after the last of the fields. -/
def wireLength (fs : List (Field kind k₀)) : Nat := fs.foldr (fun f n => max f.stop n) 0

variable {size : Nat} {m m' : Memory} {f : Field kind k₀} {fs : List (Field kind k₀)}

theorem wireLength_le_iff : wireLength fs ≤ size ↔ ∀ f ∈ fs, f.stop ≤ size := by
  induction fs with
  | nil => simp [wireLength]
  | cons f fs ih =>
      rw [wireLength] at ih ⊢
      rw [List.foldr_cons, Nat.max_le, ih, List.forall_mem_cons]

theorem checkAll_cons_ok (h : f.check size m = .ok ()) :
    checkAll size m (f :: fs) = checkAll size m fs := by
  rw [checkAll, h]

theorem checkAll_cons_error {e : ε} (h : f.check size m = .error e) :
    checkAll size m (f :: fs) = .error e := by
  rw [checkAll, h]

@[simp] theorem checkAll_nil : checkAll size m ([] : List (Field kind k₀)) = pure () := rfl

@[simp] theorem checkAll_cons (f : Field kind k₀) (fs : List (Field kind k₀)) :
    checkAll size m (f :: fs) = (do f.check size m; checkAll size m fs) := by
  rw [checkAll]
  cases f.check size m <;> rfl

@[simp] theorem checkAll_append (fs gs : List (Field kind k₀)) :
    checkAll size m (fs ++ gs) = (do checkAll size m fs; checkAll size m gs) := by
  induction fs with
  | nil => rfl
  | cons f fs ih => rw [List.cons_append, checkAll_cons, checkAll_cons, ih, bind_assoc]

/-- A list of fields passes when each of them does. -/
theorem checkAll_ok (h : ∀ f ∈ fs, f.check size m = .ok ()) : checkAll size m fs = .ok () := by
  induction fs with
  | nil => rfl
  | cons f fs ih =>
      rw [List.forall_mem_cons] at h
      rw [checkAll_cons_ok h.1]
      exact ih h.2

theorem readsAll_cons_ok (h : f.check size m = .ok ()) :
    readsAll size m (f :: fs) = f.reads size ++ readsAll size m fs := by
  rw [readsAll, h]

theorem readsAll_cons_error {e : ε} (h : f.check size m = .error e) :
    readsAll size m (f :: fs) = f.reads size := by
  rw [readsAll, h]

/-- The tests depend on nothing but the bytes that are read for them. -/
theorem checkAll_eq_of_reads (h : ∀ i ∈ readsAll size m fs, m i = m' i) :
    checkAll size m fs = checkAll size m' fs := by
  induction fs with
  | nil => rfl
  | cons f fs ih =>
      cases hcheck : f.check size m with
      | ok u =>
          rw [readsAll_cons_ok hcheck] at h
          have hsame := Field.check_eq_of_reads fun i hi => h i (List.mem_append_left _ hi)
          rw [checkAll_cons_ok hcheck, checkAll_cons_ok (hsame.symm.trans hcheck)]
          exact ih fun i hi => h i (List.mem_append_right _ hi)
      | error e =>
          rw [readsAll_cons_error hcheck] at h
          have hsame := Field.check_eq_of_reads h
          rw [checkAll_cons_error hcheck, checkAll_cons_error (hsame.symm.trans hcheck)]

/-- For fields inside the message nothing else is read. -/
theorem lt_of_mem_readsAll (hin : ∀ f ∈ fs, f.stop ≤ size) {i : Nat}
    (hi : i ∈ readsAll size m fs) : i < size := by
  induction fs with
  | nil => cases hi
  | cons f fs ih =>
      rw [List.forall_mem_cons] at hin
      have hf : ∀ {j}, j ∈ f.reads size → j < size := fun hj =>
        Nat.lt_of_lt_of_le ((Field.mem_reads_inside hin.1).1 hj).2 hin.1
      cases hcheck : f.check size m with
      | ok u =>
          rw [readsAll_cons_ok hcheck, List.mem_append] at hi
          exact hi.elim hf (ih hin.2)
      | error e =>
          rw [readsAll_cons_error hcheck] at hi
          exact hf hi

/-- The tests of fields inside the message depend on the message only. -/
theorem checkAll_congr (h : Agree size m m') (hin : ∀ f ∈ fs, f.stop ≤ size) :
    checkAll size m fs = checkAll size m' fs :=
  checkAll_eq_of_reads fun i hi => h i (lt_of_mem_readsAll hin hi)

/-- A field that is not valid ends the tests when it lies inside the message, or is not guarded. -/
theorem checkAll_error_of_invalid (hf : f ∈ fs) (hsize : f.stop ≤ size ∨ f.outside = none)
    (hinvalid : ¬ f.Valid m) : ∃ e, checkAll size m fs = .error e := by
  induction fs with
  | nil => cases hf
  | cons g fs ih =>
      cases hg : g.check size m with
      | error e => exact ⟨e, checkAll_cons_error hg⟩
      | ok u =>
          rw [checkAll_cons_ok hg]
          rcases List.mem_cons.1 hf with rfl | hmem
          · rcases hsize with hsize | hsize
            · rw [Field.check_inside hsize] at hg
              exact absurd hg hinvalid
            · rw [Field.check_unguarded hsize] at hg
              exact absurd hg hinvalid
          · exact ih hmem

/-- A guarded field outside the message ends the tests, whatever the memory holds there. When all
fields lie outside, the exception is of the one kind. -/
theorem checkAll_error_of_outside (hout : ∀ f ∈ fs, size < f.stop) (hf : f ∈ fs) (hg : f.Guarded) :
    ∃ e, checkAll size m fs = .error e ∧ kind e = k₀ := by
  induction fs with
  | nil => cases hf
  | cons g fs ih =>
      rw [List.forall_mem_cons] at hout
      cases hguard : g.outside with
      | some e =>
          exact ⟨e size, checkAll_cons_error (Field.check_outside hguard hout.1),
            g.kind_outside e hguard size⟩
      | none =>
          cases hcheck : g.check size m with
          | error e =>
              rw [Field.check_unguarded hguard] at hcheck
              refine ⟨e, checkAll_cons_error ?_, g.kind_invalid hguard _ e hcheck⟩
              rw [Field.check_unguarded hguard, hcheck]
          | ok u =>
              rw [checkAll_cons_ok hcheck]
              rcases List.mem_cons.1 hf with rfl | hmem
              · exact absurd hguard hg
              · exact ih hout.2 hmem

/-- A row of unguarded fields after the message passes in some buffer that starts with it. -/
theorem exists_checkAll_ok (hsort : fs.Pairwise fun f g => f.stop ≤ g.offset)
    (hout : ∀ f ∈ fs, size ≤ f.offset) (hfree : ∀ f ∈ fs, f.outside = none) (m : Memory) :
    ∃ m', Agree size m m' ∧ checkAll size m' fs = .ok () := by
  suffices h : ∃ m', Agree size m m' ∧ ∀ f ∈ fs, f.validate [m' f.offset] = .ok () by
    obtain ⟨m', hagree, hvalid⟩ := h
    refine ⟨m', hagree, checkAll_ok fun f hf => ?_⟩
    rw [Field.check_unguarded (hfree f hf),
      Field.bytes_single (f.width_unguarded (hfree f hf))]
    exact hvalid f hf
  induction fs with
  | nil => exact ⟨m, fun _ _ => rfl, fun f hf => absurd hf (List.not_mem_nil)⟩
  | cons f fs ih =>
      rw [List.forall_mem_cons] at hout hfree
      rw [List.pairwise_cons] at hsort
      obtain ⟨m', hagree, hvalid⟩ := ih hsort.2 hout.2 hfree.2
      obtain ⟨c, hc⟩ := f.exists_valid hfree.1
      refine ⟨Function.update m' f.offset c, fun i hi => ?_, ?_⟩
      · rw [Function.update_of_ne (Nat.ne_of_lt (Nat.lt_of_lt_of_le hi hout.1))]
        exact hagree i hi
      · rw [List.forall_mem_cons]
        refine ⟨by rwa [Function.update_self], fun g hg => ?_⟩
        -- the fields after `f` do not share its byte
        have hlt : f.offset < g.offset := by
          have hstop : f.offset + f.width ≤ g.offset := hsort.1 g hg
          have hpos := f.width_pos
          omega
        rw [Function.update_of_ne (Nat.ne_of_gt hlt)]
        exact hvalid g hg

/-- An unguarded field after the message fails in some buffer that starts with it. -/
theorem exists_checkAll_error (hf : f ∈ fs) (hout : size ≤ f.offset)
    (hfree : f.outside = none) (m : Memory) :
    ∃ m' e, Agree size m m' ∧ checkAll size m' fs = .error e := by
  obtain ⟨c, e, hc⟩ := f.exists_invalid hfree
  have hinvalid : ¬ f.Valid (Function.update m f.offset c) := by
    rw [Field.Valid, Field.bytes_single (f.width_unguarded hfree), Function.update_self, hc]
    exact fun h => by cases h
  have herror : ∃ e, checkAll size (Function.update m f.offset c) fs = .error e :=
    checkAll_error_of_invalid hf (Or.inr hfree) hinvalid
  obtain ⟨e', he'⟩ := herror
  refine ⟨_, e', fun i hi => ?_, he'⟩
  rw [Function.update_of_ne (Nat.ne_of_lt (Nat.lt_of_lt_of_le hi hout))]

/-- The message decides what the tests of its fields do: it is complete, or a field inside it is not
valid, or a guarded field lies outside. -/
def Decided (size : Nat) (m : Memory) (fs : List (Field kind k₀)) : Prop :=
  wireLength fs ≤ size ∨ (∃ f ∈ fs, f.stop ≤ size ∧ ¬ f.Valid m) ∨
    ∃ f ∈ fs, f.Guarded ∧ size < f.stop

/-- A field inside the message that is valid plays no part. -/
theorem decided_cons_iff (hin : f.stop ≤ size) (hvalid : f.Valid m) :
    Decided size m (f :: fs) ↔ Decided size m fs := by
  simp only [Decided, wireLength_le_iff, List.forall_mem_cons, List.exists_mem_cons_iff, hin,
    hvalid, true_and, not_true, false_or, Nat.not_lt.2 hin, and_false]

/-- With a field all later ones lie outside. -/
theorem forall_outside (hsort : ∀ g ∈ fs, f.stop ≤ g.offset) (hf : size < f.stop) :
    ∀ g ∈ f :: fs, size < g.stop := by
  rw [List.forall_mem_cons]
  refine ⟨hf, fun g hg => ?_⟩
  exact Nat.lt_of_lt_of_le hf (Nat.le_trans (hsort g hg) (Nat.le_add_right g.offset g.width))

/-- What a message decides is the same in every buffer that starts with it, and a message that is
not complete is then refused. -/
theorem Decided.outcome (hsort : fs.Pairwise fun f g => f.stop ≤ g.offset) (h : Decided size m fs)
    (hagree : Agree size m m') :
    (wireLength fs ≤ size ∧ checkAll size m' fs = checkAll size m fs) ∨
      ∃ e e', checkAll size m fs = .error e ∧ checkAll size m' fs = .error e' ∧
        kind e = kind e' := by
  by_cases hfull : wireLength fs ≤ size
  · exact Or.inl ⟨hfull, (checkAll_congr hagree (wireLength_le_iff.1 hfull)).symm⟩
  right
  induction fs with
  | nil => exact absurd (Nat.zero_le size) hfull
  | cons f fs ih =>
      rw [List.pairwise_cons] at hsort
      by_cases hin : f.stop ≤ size
      · have hcheck : ∀ {m₁ : Memory}, f.check size m₁ = f.validate (f.bytes m₁) :=
          Field.check_inside hin
        have hbytes := Field.bytes_congr (f := f) (hagree.mono hin)
        cases hval : f.validate (f.bytes m) with
        | error e =>
            refine ⟨e, e, checkAll_cons_error (hcheck.trans hval), checkAll_cons_error ?_, rfl⟩
            rw [hcheck, ← hbytes, hval]
        | ok u =>
            rw [checkAll_cons_ok (hcheck.trans hval),
              checkAll_cons_ok (hcheck.trans (hbytes ▸ hval))]
            refine ih hsort.2 ((decided_cons_iff hin hval).1 h) fun hle => hfull ?_
            rw [wireLength_le_iff] at hle ⊢
            exact List.forall_mem_cons.2 ⟨hin, hle⟩
      · -- a guarded field among those outside decides
        have hout := forall_outside hsort.1 (Nat.not_le.1 hin)
        obtain ⟨g, hg, hguard, -⟩ : ∃ g ∈ f :: fs, g.Guarded ∧ size < g.stop := by
          rcases h with hle | ⟨g, hg, hle, -⟩ | hguard
          · exact absurd hle hfull
          · exact absurd hle (Nat.not_le.2 (hout g hg))
          · exact hguard
        obtain ⟨e, he, hk⟩ := checkAll_error_of_outside (m := m) hout hg hguard
        obtain ⟨e', he', hk'⟩ := checkAll_error_of_outside (m := m') hout hg hguard
        exact ⟨e, e', he, he', hk.trans hk'.symm⟩

/-- What a message leaves open passes in one buffer that starts with it, and fails in another. -/
theorem exists_of_not_decided (hsort : fs.Pairwise fun f g => f.stop ≤ g.offset)
    (h : ¬ Decided size m fs) :
    ∃ m₁ m₂ e, Agree size m m₁ ∧ Agree size m m₂ ∧ checkAll size m₁ fs = .ok () ∧
      checkAll size m₂ fs = .error e := by
  induction fs with
  | nil => exact absurd (Or.inl (Nat.zero_le size)) h
  | cons f fs ih =>
      rw [List.pairwise_cons] at hsort
      by_cases hin : f.stop ≤ size
      · have hvalid : f.Valid m := by
          by_contra hinvalid
          exact h (Or.inr (Or.inl ⟨f, List.mem_cons_self, hin, hinvalid⟩))
        obtain ⟨m₁, m₂, e, h₁, h₂, hok, herr⟩ :=
          ih hsort.2 fun hd => h ((decided_cons_iff hin hvalid).2 hd)
        have hcheck : ∀ {m'}, Agree size m m' → f.check size m' = .ok () := fun hm' => by
          rw [Field.check_inside hin]
          exact (Field.Valid.congr (hm'.mono hin)).1 hvalid
        refine ⟨m₁, m₂, e, h₁, h₂, ?_, ?_⟩
        · rw [checkAll_cons_ok (hcheck h₁), hok]
        · rw [checkAll_cons_ok (hcheck h₂), herr]
      · have hout := forall_outside hsort.1 (Nat.not_le.1 hin)
        have hfree : ∀ g ∈ f :: fs, g.outside = none := by
          intro g hg
          by_contra hguard
          exact h (Or.inr (Or.inr ⟨g, hg, hguard, hout g hg⟩))
        -- an unguarded field is a single byte, so it starts after the message
        have hstart : ∀ g ∈ f :: fs, size ≤ g.offset := by
          intro g hg
          have hstop : size < g.offset + g.width := hout g hg
          rw [g.width_unguarded (hfree g hg)] at hstop
          exact Nat.le_of_lt_succ hstop
        obtain ⟨m₁, h₁, hok⟩ := exists_checkAll_ok (List.pairwise_cons.2 hsort) hstart hfree m
        obtain ⟨m₂, e, h₂, herr⟩ := exists_checkAll_error List.mem_cons_self
          (hstart f List.mem_cons_self) (hfree f List.mem_cons_self) m
        exact ⟨m₁, m₂, e, h₁, h₂, hok, herr⟩

/-! ## Staying inside the message -/

/-- The message keeps the tests of its fields inside: it is complete, or a field inside it is not
valid, or the first field that does not lie inside is guarded. -/
def Contained (size : Nat) (m : Memory) (fs : List (Field kind k₀)) : Prop :=
  wireLength fs ≤ size ∨ (∃ f ∈ fs, f.stop ≤ size ∧ ¬ f.Valid m) ∨
    ∃ f ∈ fs, f.Guarded ∧ size < f.stop ∧ ∀ g ∈ fs, g.offset < f.offset → g.stop ≤ size

theorem Contained.decided (h : Contained size m fs) : Decided size m fs := by
  rcases h with hfull | hinvalid | ⟨f, hf, hguard, hout, -⟩
  · exact Or.inl hfull
  · exact Or.inr (Or.inl hinvalid)
  · exact Or.inr (Or.inr ⟨f, hf, hguard, hout⟩)

theorem contained_cons_inside (hin : f.stop ≤ size) (hvalid : f.Valid m) :
    Contained size m (f :: fs) ↔ Contained size m fs := by
  simp only [Contained, wireLength_le_iff, List.forall_mem_cons, List.exists_mem_cons_iff, hin,
    hvalid, true_and, not_true, false_or, Nat.not_lt.2 hin, false_and, and_false,
    implies_true]

theorem contained_cons_outside (hsort : ∀ g ∈ fs, f.stop ≤ g.offset) (hout : size < f.stop) :
    Contained size m (f :: fs) ↔ f.Guarded := by
  have houtside := forall_outside hsort hout
  constructor
  · rintro (hfull | ⟨g, hg, hin, -⟩ | ⟨g, hg, hguard, -, hfirst⟩)
    · exact absurd (wireLength_le_iff.1 hfull f List.mem_cons_self) (Nat.not_le.2 hout)
    · exact absurd hin (Nat.not_le.2 (houtside g hg))
    · rcases List.mem_cons.1 hg with rfl | hmem
      · exact hguard
      · -- a later field is not the first
        have hlt : f.offset < g.offset :=
          Nat.lt_of_lt_of_le (Nat.lt_add_of_pos_right f.width_pos) (hsort g hmem)
        exact absurd (hfirst f List.mem_cons_self hlt) (Nat.not_le.2 hout)
  · intro hguard
    refine Or.inr (Or.inr ⟨f, List.mem_cons_self, hguard, hout, fun g hg hlt => ?_⟩)
    rcases List.mem_cons.1 hg with rfl | hmem
    · exact absurd hlt (Nat.lt_irrefl _)
    · have hle : f.offset ≤ g.offset := Nat.le_trans (Nat.le_add_right _ _) (hsort g hmem)
      exact absurd hlt (Nat.not_lt.2 hle)

/-- No byte after the message is read exactly when the message keeps the tests inside. -/
theorem readsAll_lt_iff (hsort : fs.Pairwise fun f g => f.stop ≤ g.offset) :
    (∀ i ∈ readsAll size m fs, i < size) ↔ Contained size m fs := by
  induction fs with
  | nil => exact iff_of_true (fun i hi => by cases hi) (Or.inl (Nat.zero_le size))
  | cons f fs ih =>
      rw [List.pairwise_cons] at hsort
      by_cases hin : f.stop ≤ size
      · have hf : ∀ i ∈ f.reads size, i < size := fun i hi =>
          Nat.lt_of_lt_of_le ((Field.mem_reads_inside hin).1 hi).2 hin
        cases hval : f.validate (f.bytes m) with
        | ok u =>
            rw [readsAll_cons_ok ((Field.check_inside hin).trans hval),
              contained_cons_inside hin hval, ← ih hsort.2, List.forall_mem_append]
            exact and_iff_right hf
        | error e =>
            rw [readsAll_cons_error ((Field.check_inside hin).trans hval)]
            refine iff_of_true hf (Or.inr (Or.inl ⟨f, List.mem_cons_self, hin, fun hvalid => ?_⟩))
            cases hvalid.symm.trans hval
      · have hout := Nat.not_le.1 hin
        rw [contained_cons_outside hsort.1 hout]
        cases hguard : f.outside with
        | some e =>
            rw [readsAll_cons_error (Field.check_outside hguard hout),
              Field.reads_outside hguard hout]
            exact iff_of_true (fun i hi => by cases hi) (fun h => by cases hguard.symm.trans h)
        | none =>
            refine iff_of_false (fun h => ?_) (fun h => h hguard)
            have hmem : f.offset ∈ readsAll size m (f :: fs) := by
              have hread : f.offset ∈ f.reads size := (Field.mem_reads_unguarded hguard).2 rfl
              cases hcheck : f.check size m with
              | ok u =>
                  rw [readsAll_cons_ok hcheck]
                  exact List.mem_append_left _ hread
              | error e => rwa [readsAll_cons_error hcheck]
            have hstop : f.stop = f.offset + 1 := by rw [Field.stop, f.width_unguarded hguard]
            have hlt := h f.offset hmem
            omega

end CheckAll

/-! ## Layouts -/

/-- A layout: the fields of a message in order, and the value put together from its bytes. -/
structure Layout {ε : Type u} {κ : Type v} (kind : ε → κ) (k₀ : κ) (α : Type) where
  fields : List (Field kind k₀)
  value : Memory → α
  sorted : fields.Pairwise fun f g => f.stop ≤ g.offset
  value_congr : ∀ {m m' : Memory}, Agree (wireLength fields) m m' → value m = value m'

namespace Layout

variable {ε : Type u} {κ : Type v} {kind : ε → κ} {k₀ : κ} {α : Type}

/-- Decode a message of the given size. -/
def run (l : Layout kind k₀ α) (size : Nat) (m : Memory) : Except ε α := do
  checkAll size m l.fields
  return l.value m

/-- The indexes of the bytes that the decoder reads. -/
def reads (l : Layout kind k₀ α) (size : Nat) (m : Memory) : List Nat := readsAll size m l.fields

variable {l : Layout kind k₀ α} {size : Nat} {m : Memory}

theorem reads_lt_iff : (∀ i ∈ l.reads size m, i < size) ↔ Contained size m l.fields :=
  readsAll_lt_iff l.sorted

theorem run_ok (h : checkAll size m l.fields = .ok ()) : l.run size m = .ok (l.value m) := by
  rw [run, h]
  rfl

theorem run_error {e : ε} (h : checkAll size m l.fields = .error e) : l.run size m = .error e := by
  rw [run, h]
  rfl

/-- The outcome is the same in all buffers that start with the message, and a message that is not
complete is refused, exactly when the message decides the tests of its fields. -/
theorem independent_iff :
    ((∀ m', Agree size m m' → SameOutcome kind (l.run size m') (l.run size m)) ∧
      (size < wireLength l.fields → ∃ e, l.run size m = .error e)) ↔ Decided size m l.fields := by
  constructor
  · rintro ⟨hsame, -⟩
    by_contra hopen
    obtain ⟨m₁, m₂, e, h₁, h₂, hok, herr⟩ := exists_of_not_decided l.sorted hopen
    have h := (hsame m₁ h₁).trans (hsame m₂ h₂).symm
    rw [run_ok hok, run_error herr] at h
    exact not_sameOutcome_ok_error _ _ h
  · intro hd
    constructor
    · intro m' hm'
      rcases hd.outcome l.sorted hm' with ⟨hfull, heq⟩ | ⟨e, e', he, he', hk⟩
      · rw [run, run, heq, l.value_congr (hm'.mono hfull)]
        exact SameOutcome.refl kind _
      · rw [run_error he, run_error he']
        exact sameOutcome_error hk.symm
    · intro hshort
      rcases hd.outcome l.sorted (fun i _ => rfl : Agree size m m) with
        ⟨hfull, -⟩ | ⟨e, e', he, -, -⟩
      · exact absurd hfull (Nat.not_le.2 hshort)
      · exact ⟨e, run_error he⟩

end Layout

end Bytes
