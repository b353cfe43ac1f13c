import Mathlib.Data.List.Basic

/-!
# Lines with commas between their fields

Nothing in such a line is quoted. A reader who splits it at the commas finds the fields that it was
made of when no field has a comma (`fieldsOf_line`). Numbers have none (`notMem_toString`).
-/

set_option autoImplicit false

namespace CommaLines

/-- The fields with a comma between each two. -/
def line (fields : List String) : String := ",".intercalate fields

/-- What a reader of a line finds between the commas. -/
def fieldsOf (text : String) : List (List Char) := text.toList.splitOn ','

theorem fieldsOf_line {fields : List String} (hne : fields ≠ [])
    (h : ∀ f ∈ fields, ',' ∉ f.toList) : fieldsOf (line fields) = fields.map String.toList := by
  have htexts : ∀ text ∈ fields.map String.toList, ',' ∉ text := by
    intro text htext
    obtain ⟨f, hf, rfl⟩ := List.mem_map.1 htext
    exact h f hf
  have hsome : fields.map String.toList ≠ [] := by simpa using hne
  rw [fieldsOf, line, String.toList_intercalate]
  exact List.splitOn_intercalate ',' htexts hsome

/-! ## Numbers -/

theorem notMem_toDigits {c : Char} (hc : c.isDigit = false) (n : Nat) : c ∉ Nat.toDigits 10 n := by
  intro h
  have hdigit := Nat.isDigit_of_mem_toDigits (by omega) (by omega) h
  exact Bool.false_ne_true (hc.symm.trans hdigit)

theorem notMem_repr (n : Nat) : ',' ∉ n.repr.toList := by
  rw [Nat.toList_repr]
  exact notMem_toDigits rfl n

theorem notMem_toString (x : Int) : ',' ∉ (toString x).toList := by
  rw [Int.toString_eq_repr, Int.repr_eq_if]
  split
  · exact notMem_repr x.toNat
  · intro h
    rw [String.toList_append] at h
    rcases List.mem_append.1 h with h | h
    · exact absurd h (by decide)
    · exact notMem_repr (-x).toNat h

end CommaLines
