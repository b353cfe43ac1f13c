import Mathlib.Logic.Basic

/-!
# Maps with shared cells

A map some of whose keys name one cell: what is written under a key is read under every key of the
same cell. `SharedMap` carries the relation between keys and the law that keys of one cell read the
same.

`write` overwrites the cell of a key, and `writeAll` follows a list of writes. The relation between
the keys is never changed by a write (`same_writeAll`). When the value that a list of writes leaves
behind is known for each key and is the same for the keys of one cell, the whole list of writes is
known (`get?_writeAll`), in whatever order it writes the keys of one cell.
-/

set_option autoImplicit false

namespace Containers

universe u v

/-- A map from keys to values, and which keys name one cell. -/
@[ext] structure SharedMap (κ : Type u) (υ : Type v) where
  same : κ → κ → Prop
  get? : κ → Option υ
  equivalence : Equivalence same
  get?_eq_of_same : ∀ a b, same a b → get? a = get? b

namespace SharedMap

variable {κ : Type u} {υ : Type v}

open Classical in
/-- Overwrite the cell that a key names. -/
noncomputable def write (m : SharedMap κ υ) (k : κ) (x : υ) : SharedMap κ υ where
  same := m.same
  get? j := if m.same k j then some x else m.get? j
  equivalence := m.equivalence
  get?_eq_of_same := by
    intro a b hab
    have hiff : m.same k a ↔ m.same k b :=
      ⟨fun h => m.equivalence.trans h hab, fun h => m.equivalence.trans h (m.equivalence.symm hab)⟩
    rw [m.get?_eq_of_same a b hab]
    by_cases h : m.same k b
    · rw [if_pos h, if_pos (hiff.2 h)]
    · rw [if_neg h, if_neg (mt hiff.1 h)]

/-- Follow a list of writes. -/
noncomputable def writeAll (m : SharedMap κ υ) (writes : List (κ × υ)) : SharedMap κ υ :=
  writes.foldl (fun m w => m.write w.1 w.2) m

variable (m : SharedMap κ υ)

@[simp] theorem same_write (k : κ) (x : υ) : (m.write k x).same = m.same := rfl

theorem get?_write_of_same {k j : κ} (h : m.same k j) (x : υ) : (m.write k x).get? j = some x :=
  if_pos h

theorem get?_write_of_not_same {k j : κ} (h : ¬ m.same k j) (x : υ) :
    (m.write k x).get? j = m.get? j := if_neg h

@[simp] theorem writeAll_nil : m.writeAll [] = m := rfl

@[simp] theorem writeAll_cons (w : κ × υ) (writes : List (κ × υ)) :
    m.writeAll (w :: writes) = (m.write w.1 w.2).writeAll writes := rfl

/-- No write changes which keys name one cell. -/
@[simp] theorem same_writeAll (writes : List (κ × υ)) : (m.writeAll writes).same = m.same := by
  induction writes generalizing m with
  | nil => rfl
  | cons w writes ih => rw [writeAll_cons, ih, same_write]

/-- A cell that no write names keeps its value. -/
theorem get?_writeAll_of_not_same {writes : List (κ × υ)} {j : κ}
    (h : ∀ w ∈ writes, ¬ m.same w.1 j) : (m.writeAll writes).get? j = m.get? j := by
  induction writes generalizing m with
  | nil => rfl
  | cons w writes ih =>
      rw [writeAll_cons, ih (m.write w.1 w.2) fun v hv => h v (List.mem_cons_of_mem w hv)]
      exact m.get?_write_of_not_same (h w (by simp)) w.2

/-- A written cell stays written. -/
theorem get?_writeAll_ne_none {j : κ} (writes : List (κ × υ)) (h : m.get? j ≠ none) :
    (m.writeAll writes).get? j ≠ none := by
  induction writes generalizing m with
  | nil => exact h
  | cons w writes ih =>
      rw [writeAll_cons]
      apply ih
      by_cases hs : m.same w.1 j
      · rw [m.get?_write_of_same hs]
        exact Option.some_ne_none w.2
      · rwa [m.get?_write_of_not_same hs]

/-- When every write to a cell writes the value that the cell is meant to end with, a cell that is
written ends with that value. -/
theorem get?_writeAll_of_same {writes : List (κ × υ)} {final : κ → Option υ} {j : κ}
    (hfinal : ∀ w ∈ writes, m.same w.1 j → final j = some w.2)
    (h : ∃ w ∈ writes, m.same w.1 j) : (m.writeAll writes).get? j = final j := by
  induction writes generalizing m with
  | nil =>
      obtain ⟨w, hw, -⟩ := h
      simp at hw
  | cons w writes ih =>
      rw [writeAll_cons]
      -- The last write to the cell is either in the rest of the list or the one in front.
      by_cases hrest : ∃ v ∈ writes, m.same v.1 j
      · exact ih (m.write w.1 w.2) (fun v hv => hfinal v (List.mem_cons_of_mem w hv)) hrest
      · have hnone : ∀ v ∈ writes, ¬ m.same v.1 j := fun v hv hs => hrest ⟨v, hv, hs⟩
        obtain ⟨v, hv, hs⟩ := h
        rcases List.mem_cons.1 hv with rfl | hv
        · rw [(m.write v.1 v.2).get?_writeAll_of_not_same hnone, m.get?_write_of_same hs]
          exact (hfinal v (by simp) hs).symm
        · exact absurd hs (hnone v hv)

/-- A list of writes leaves the values `final`, if these agree on the keys of one cell, are what is
written under each key, and are the old values where nothing is written. -/
theorem get?_writeAll {writes : List (κ × υ)} {final : κ → Option υ}
    (hcell : ∀ a b, m.same a b → final a = final b)
    (hwritten : ∀ w ∈ writes, final w.1 = some w.2)
    (hkept : ∀ j, (∀ w ∈ writes, w.1 ≠ j) → final j = m.get? j) (j : κ) :
    (m.writeAll writes).get? j = final j := by
  by_cases h : ∃ w ∈ writes, m.same w.1 j
  · apply m.get?_writeAll_of_same _ h
    intro w hw hs
    rw [← hcell w.1 j hs, hwritten w hw]
  · have hnone : ∀ w ∈ writes, ¬ m.same w.1 j := fun w hw hs => h ⟨w, hw, hs⟩
    rw [m.get?_writeAll_of_not_same hnone]
    apply (hkept j _).symm
    rintro w hw rfl
    exact hnone w hw (m.equivalence.refl w.1)

end SharedMap

end Containers
