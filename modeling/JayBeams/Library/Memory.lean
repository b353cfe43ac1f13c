import Mathlib.Data.List.Basic
import Mathlib.Data.List.GetD

/-!
# Memory

A memory holds a byte at each address. `Memory.read` is the block of bytes of a given length at an
address, and `Memory.write` overwrites the block that a list of bytes covers.

A block reads back as it was written (`read_write_self`), a write does not show in a block that it
does not touch (`read_write_disjoint`), and blocks that lie next to each other read and write as one
(`read_add`, `write_append`).
-/

set_option autoImplicit false

namespace Bytes

/-- A byte at each address. -/
abbrev Memory := Nat → UInt8

namespace Memory

/-- The memory that starts with the given bytes and holds zeros after them. -/
def ofList (bs : List UInt8) : Memory := fun i => bs.getD i 0

/-- The `n` bytes at an address. -/
def read (m : Memory) (start n : Nat) : List UInt8 := (List.range n).map fun i => m (start + i)

/-- Overwrite the bytes at an address. -/
def write (m : Memory) (start : Nat) (bs : List UInt8) : Memory :=
  fun i => if start ≤ i then bs.getD (i - start) (m i) else m i

/-! ## Reading -/

section Read

variable (m : Memory) (s : Nat)

@[simp] theorem length_read (n : Nat) : (m.read s n).length = n := by simp [read]

@[simp] theorem getElem_read (n i : Nat) (h : i < (m.read s n).length) :
    (m.read s n)[i] = m (s + i) := by
  simp [read]

@[simp] theorem read_zero : m.read s 0 = [] := rfl

theorem read_succ (n : Nat) : m.read s (n + 1) = m s :: m.read (s + 1) n := by
  apply List.ext_getElem
  · simp
  · intro i h h'
    cases i with
    | zero => simp
    | succ i => simp [Nat.add_assoc, Nat.add_comm 1 i]

/-- Two blocks next to each other are one block. -/
theorem read_add (a b : Nat) : m.read s (a + b) = m.read s a ++ m.read (s + a) b := by
  induction a generalizing s with
  | zero => simp
  | succ a ih =>
      rw [Nat.add_right_comm, read_succ, read_succ, ih, List.cons_append, Nat.add_right_comm s 1 a,
        Nat.add_assoc s a 1]

theorem drop_read (n k : Nat) : (m.read s n).drop k = m.read (s + k) (n - k) := by
  apply List.ext_getElem
  · simp
  · intro i h h'
    simp [Nat.add_assoc]

theorem take_read {n k : Nat} (h : k ≤ n) : (m.read s n).take k = m.read s k := by
  apply List.ext_getElem
  · simp [h]
  · intro i hi hi'
    simp

/-- Blocks of two memories are equal when the memories agree on them. -/
theorem read_congr {m₁ m₂ : Memory} {s n : Nat} (h : ∀ i, i < n → m₁ (s + i) = m₂ (s + i)) :
    m₁.read s n = m₂.read s n := by
  apply List.ext_getElem
  · simp
  · intro i hi hi'
    rw [getElem_read, getElem_read]
    exact h i (by simpa using hi)

end Read

/-! ## Writing -/

section Write

variable (m : Memory) (s : Nat) (bs : List UInt8)

theorem write_of_lt {i : Nat} (h : i < s) : m.write s bs i = m i := by
  rw [write, if_neg (Nat.not_le.2 h)]

theorem write_of_ge {i : Nat} (h : s + bs.length ≤ i) : m.write s bs i = m i := by
  rw [write, if_pos (by omega), List.getD_eq_default _ _ (by omega)]

theorem write_add {i : Nat} (h : i < bs.length) : m.write s bs (s + i) = bs[i] := by
  rw [write, if_pos (Nat.le_add_right s i), Nat.add_sub_cancel_left, List.getD_eq_getElem _ _ h]

/-- A block reads back as it was written. -/
theorem read_write_self : (m.write s bs).read s bs.length = bs := by
  apply List.ext_getElem
  · simp
  · intro i h h'
    rw [getElem_read]
    exact write_add m s bs h'

/-- A write does not show in a block that it does not touch. -/
theorem read_write_disjoint {t n : Nat} (h : t + n ≤ s ∨ s + bs.length ≤ t) :
    (m.write s bs).read t n = m.read t n := by
  apply read_congr
  intro i hi
  rcases h with h | h
  · exact write_of_lt m s bs (by omega)
  · exact write_of_ge m s bs (by omega)

/-- Two writes next to each other are one write. -/
theorem write_append (cs : List UInt8) :
    m.write s (bs ++ cs) = (m.write s bs).write (s + bs.length) cs := by
  funext i
  rcases Nat.lt_or_ge i s with hi | hi
  · rw [write_of_lt _ _ _ hi, write_of_lt _ _ _ (by omega), write_of_lt _ _ _ hi]
  · obtain ⟨j, rfl⟩ := Nat.exists_eq_add_of_le hi
    rcases Nat.lt_or_ge j bs.length with hj | hj
    · rw [write_of_lt _ (s + bs.length) cs (by omega), write_add _ _ _ hj,
        write_add _ _ _ (by simp; omega), List.getElem_append_left hj]
    · obtain ⟨k, rfl⟩ := Nat.exists_eq_add_of_le hj
      rcases Nat.lt_or_ge k cs.length with hk | hk
      · rw [← Nat.add_assoc, write_add _ _ cs hk, Nat.add_assoc, write_add _ _ _ (by simp; omega)]
        simp
      · rw [write_of_ge _ s (bs ++ cs) (by simp; omega), write_of_ge _ (s + bs.length) cs (by omega),
          write_of_ge _ s bs (by omega)]

@[simp] theorem read_ofList : (ofList bs).read 0 bs.length = bs := by
  apply List.ext_getElem
  · simp
  · intro i h h'
    rw [getElem_read, Nat.zero_add, ofList, List.getD_eq_getElem _ _ h']

/-- After a write at the start, the memory starts as the list does. -/
theorem write_zero_eq_ofList {i : Nat} (h : i < bs.length) : m.write 0 bs i = ofList bs i := by
  have hw := write_add m 0 bs h
  rw [Nat.zero_add] at hw
  rw [hw, ofList, List.getD_eq_getElem _ _ h]

end Write

end Memory

end Bytes
