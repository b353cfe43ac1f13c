import JayBeams.Itch5.ShortStringField
import Mathlib.Data.List.TakeWhile

/-!
# The comparisons of short string fields

Each comparison of two fields is a comparison of the strings in them, in the lexicographic order of
their characters (`lt_iff`), which makes `operator<` a strict total order with the equality of
`operator==` (`orderLaws`).

The comparison of a field with a C string follows `operator==(char const*)` and
`operator<(char const*)`. The second has the body of the first, so that it holds exactly of an equal
string.

The other operators come from `boost::less_than_comparable` and `boost::equality_comparable`.
`BoostOperators` holds them with what the library documents of them. Between a field and a C string
it can derive only those that need no `operator>` of the field.
-/

set_option autoImplicit false

namespace JayBeams.Itch5

open Bytes

/-! ## The order of strings -/

/-- The order of characters as `strncmp` takes it from their difference. -/
theorem sub_toNat_neg_iff (c d : UInt8) : (c.toNat : Int) - d.toNat < 0 ↔ c < d := by
  rw [UInt8.lt_iff_toNat_lt]
  omega

/-- `strncmp` orders strings by the characters before their first NUL. -/
theorem strncmp_neg_iff (a b : Memory) (i n : Nat) :
    strncmp a b i n < 0 ↔
      (a.read i n).takeWhile (· != 0) < (b.read i n).takeWhile (· != 0) := by
  induction n generalizing i with
  | zero => simp [strncmp]
  | succ n ih =>
      rw [strncmp, Memory.read_succ, Memory.read_succ]
      by_cases hab : a i = b i
      · rw [if_neg (not_not.2 hab), ← hab]
        by_cases h0 : a i = 0
        · simp [h0]
        · simp [h0, ih]
      · rw [if_pos hab, sub_toNat_neg_iff]
        -- the first characters differ, so that at most one of the strings ends here
        by_cases h0 : a i = 0
        · have hb : b i ≠ 0 := fun hb => hab (h0.trans hb.symm)
          have hpos : 0 < b i := UInt8.pos_iff_ne_zero.2 hb
          simp [h0, hb, hpos]
        · by_cases hb : b i = 0
          · simp [h0, hb]
          · simp [h0, hb, hab, List.cons_lt_cons_iff]

/-! ## C strings -/

/-- A C string: its characters are before a NUL in memory. -/
structure CString where
  memory : Memory
  length : Nat
  terminated : memory length = 0
  ne_zero : ∀ i, i < length → memory i ≠ 0

namespace CString

/-- The characters of the string. -/
def chars (s : CString) : List UInt8 := s.memory.read 0 s.length

@[simp] theorem length_chars (s : CString) : s.chars.length = s.length := Memory.length_read _ _ _

theorem mem_chars_ne_zero (s : CString) {c : UInt8} (hc : c ∈ s.chars) : c ≠ 0 := by
  rw [chars, Memory.read, List.mem_map] at hc
  obtain ⟨i, hi, rfl⟩ := hc
  rw [Nat.zero_add]
  exact s.ne_zero i (List.mem_range.1 hi)

theorem takeWhile_chars (s : CString) : s.chars.takeWhile (· != 0) = s.chars := by
  rw [List.takeWhile_eq_self_iff]
  intro c hc
  exact bne_iff_ne.2 (s.mem_chars_ne_zero hc)

/-- A read that goes past the end of the string sees its characters. -/
theorem takeWhile_read (s : CString) {n : Nat} (h : s.length < n) :
    (s.memory.read 0 n).takeWhile (· != 0) = s.chars := by
  -- The read is the characters, their NUL, and whatever follows it.
  obtain ⟨k, rfl⟩ := Nat.exists_eq_add_of_lt h
  rw [Nat.add_assoc, Memory.read_add, Memory.read_succ, Nat.zero_add, s.terminated,
    List.takeWhile_append_of_pos]
  · simp [chars]
  · intro c hc
    exact bne_iff_ne.2 (s.mem_chars_ne_zero hc)

end CString

/-! ## The operators -/

namespace ShortStringField

variable {wireSize : Nat}

/-- `operator<` -/
def lt (a b : ShortStringField wireSize) : Bool :=
  strncmp a.buffer b.buffer 0 (bufferSize wireSize) < 0

/-- `operator==(char const*)` -/
def eqCString (a : ShortStringField wireSize) (rhs : Memory) : Bool :=
  strncmp a.buffer rhs 0 (bufferSize wireSize) == 0

/-- `operator<(char const*)` -/
def ltCString (a : ShortStringField wireSize) (rhs : Memory) : Bool :=
  strncmp a.buffer rhs 0 (bufferSize wireSize) == 0

/-- The operators that `boost::less_than_comparable` and `boost::equality_comparable` derive, and what
they document of them. The names of those with a C string say on which side it is. -/
structure BoostOperators (wireSize : Nat) where
  ne : ShortStringField wireSize → ShortStringField wireSize → Bool
  gt : ShortStringField wireSize → ShortStringField wireSize → Bool
  le : ShortStringField wireSize → ShortStringField wireSize → Bool
  ge : ShortStringField wireSize → ShortStringField wireSize → Bool
  neCString : ShortStringField wireSize → Memory → Bool
  geCString : ShortStringField wireSize → Memory → Bool
  cStringEq : Memory → ShortStringField wireSize → Bool
  cStringNe : Memory → ShortStringField wireSize → Bool
  cStringGt : Memory → ShortStringField wireSize → Bool
  cStringLe : Memory → ShortStringField wireSize → Bool
  ne_eq : ∀ a b, ne a b = !(a == b)
  gt_eq : ∀ a b, gt a b = lt b a
  le_eq : ∀ a b, le a b = !lt b a
  ge_eq : ∀ a b, ge a b = !lt a b
  neCString_eq : ∀ a s, neCString a s = !eqCString a s
  geCString_eq : ∀ a s, geCString a s = !ltCString a s
  cStringEq_eq : ∀ s a, cStringEq s a = eqCString a s
  cStringNe_eq : ∀ s a, cStringNe s a = !eqCString a s
  cStringGt_eq : ∀ s a, cStringGt s a = ltCString a s
  cStringLe_eq : ∀ s a, cStringLe s a = !ltCString a s

/-- The operators as the documentation writes them. -/
def BoostOperators.documented (wireSize : Nat) : BoostOperators wireSize where
  ne a b := !(a == b)
  gt a b := lt b a
  le a b := !lt b a
  ge a b := !lt a b
  neCString a s := !eqCString a s
  geCString a s := !ltCString a s
  cStringEq s a := eqCString a s
  cStringNe s a := !eqCString a s
  cStringGt s a := ltCString a s
  cStringLe s a := !ltCString a s
  ne_eq _ _ := rfl
  gt_eq _ _ := rfl
  le_eq _ _ := rfl
  ge_eq _ _ := rfl
  neCString_eq _ _ := rfl
  geCString_eq _ _ := rfl
  cStringEq_eq _ _ := rfl
  cStringNe_eq _ _ := rfl
  cStringGt_eq _ _ := rfl
  cStringLe_eq _ _ := rfl

/-! ## The order of fields -/

theorem lt_iff (a b : ShortStringField wireSize) : lt a b = true ↔ a.cStr < b.cStr := by
  rw [lt, decide_eq_true_eq]
  exact strncmp_neg_iff a.buffer b.buffer 0 (bufferSize wireSize)

theorem lt_eq_false_iff (a b : ShortStringField wireSize) : lt a b = false ↔ ¬ a.cStr < b.cStr := by
  rw [← Bool.not_eq_true, lt_iff]

theorem lt_irrefl (a : ShortStringField wireSize) : lt a a = false := by
  rw [lt_eq_false_iff]
  exact List.lt_irrefl a.cStr

theorem lt_trans {a b c : ShortStringField wireSize} (hab : lt a b = true) (hbc : lt b c = true) :
    lt a c = true := by
  rw [lt_iff] at *
  exact List.lt_trans hab hbc

theorem lt_asymm {a b : ShortStringField wireSize} (h : lt a b = true) : lt b a = false := by
  rw [lt_iff] at h
  rw [lt_eq_false_iff]
  exact List.lt_asymm h

theorem beq_eq_false_of_lt {a b : ShortStringField wireSize} (h : lt a b = true) :
    (a == b) = false := by
  rw [lt_iff] at h
  rw [← Bool.not_eq_true, beq_iff]
  intro heq
  exact List.lt_irrefl b.cStr (heq ▸ h)

theorem lt_eq_false_of_beq {a b : ShortStringField wireSize} (h : (a == b) = true) :
    lt a b = false := by
  rw [beq_iff] at h
  rw [lt_eq_false_iff, h]
  exact List.lt_irrefl b.cStr

theorem beq_comm (a b : ShortStringField wireSize) : (a == b) = (b == a) := by
  rw [Bool.eq_iff_iff, beq_iff, beq_iff]
  exact eq_comm

theorem lt_or_beq_or_lt (a b : ShortStringField wireSize) :
    lt a b = true ∨ (a == b) = true ∨ lt b a = true := by
  rw [lt_iff, beq_iff, lt_iff]
  exact Std.Trichotomous.rel_or_eq_or_rel_swap (r := fun x y : List UInt8 => x < y)

/-- The answers that `a < b`, `a == b` and `b < a` can have together. -/
theorem comparison_cases (a b : ShortStringField wireSize) :
    (lt a b = true ∧ (a == b) = false ∧ lt b a = false) ∨
      (lt a b = false ∧ (a == b) = true ∧ lt b a = false) ∨
      (lt a b = false ∧ (a == b) = false ∧ lt b a = true) := by
  -- The order of the strings decides, and the other two answers follow from it.
  rcases lt_or_beq_or_lt a b with h | h | h
  · exact Or.inl ⟨h, beq_eq_false_of_lt h, lt_asymm h⟩
  · exact Or.inr (Or.inl ⟨lt_eq_false_of_beq h, h, lt_eq_false_of_beq (beq_comm a b ▸ h)⟩)
  · exact Or.inr (Or.inr ⟨lt_asymm h, beq_comm a b ▸ beq_eq_false_of_lt h, h⟩)

/-- The laws of the comparisons between fields. -/
structure OrderLaws (ops : BoostOperators wireSize) : Prop where
  /-- exactly one of `a < b`, `a == b` and `b < a` -/
  trichotomy : ∀ a b : ShortStringField wireSize,
    (lt a b = true ∧ (a == b) = false ∧ lt b a = false) ∨
      (lt a b = false ∧ (a == b) = true ∧ lt b a = false) ∨
      (lt a b = false ∧ (a == b) = false ∧ lt b a = true)
  transitive : ∀ a b c : ShortStringField wireSize,
    lt a b = true → lt b c = true → lt a c = true
  /-- equal fields compare the same with every field -/
  congruent : ∀ a b : ShortStringField wireSize, (a == b) = true →
    ∀ c, lt a c = lt b c ∧ lt c a = lt c b ∧ (a == c) = (b == c)
  ne_iff : ∀ a b, ops.ne a b = true ↔ lt a b = true ∨ lt b a = true
  gt_iff : ∀ a b, ops.gt a b = true ↔ lt b a = true
  le_iff : ∀ a b, ops.le a b = true ↔ lt a b = true ∨ (a == b) = true
  ge_iff : ∀ a b, ops.ge a b = true ↔ lt b a = true ∨ (a == b) = true

theorem orderLaws (ops : BoostOperators wireSize) : OrderLaws ops where
  trichotomy := comparison_cases
  transitive _ _ _ hab hbc := lt_trans hab hbc
  congruent a b hab c := by
    -- Every comparison reads the C string of a field and nothing else of it.
    have heq : a.cStr = b.cStr := (beq_iff a b).1 hab
    refine ⟨?_, ?_, ?_⟩
    · rw [Bool.eq_iff_iff, lt_iff, lt_iff, heq]
    · rw [Bool.eq_iff_iff, lt_iff, lt_iff, heq]
    · rw [Bool.eq_iff_iff, beq_iff, beq_iff, heq]
  ne_iff a b := by
    rw [ops.ne_eq]
    rcases comparison_cases a b with ⟨hlt, heq, hgt⟩ | ⟨hlt, heq, hgt⟩ | ⟨hlt, heq, hgt⟩ <;>
      simp [hlt, heq, hgt]
  gt_iff a b := by rw [ops.gt_eq]
  le_iff a b := by
    rw [ops.le_eq]
    rcases comparison_cases a b with ⟨hlt, heq, hgt⟩ | ⟨hlt, heq, hgt⟩ | ⟨hlt, heq, hgt⟩ <;>
      simp [hlt, heq, hgt]
  ge_iff a b := by
    rw [ops.ge_eq]
    rcases comparison_cases a b with ⟨hlt, heq, hgt⟩ | ⟨hlt, heq, hgt⟩ | ⟨hlt, heq, hgt⟩ <;>
      simp [hlt, heq, hgt]

/-! ## Comparisons with a C string -/

/-- The field built from a C string. -/
def ofCString (s : CString) : ShortStringField wireSize := ofString s.chars

section CString

variable {s : CString}

/-- A string without blanks that is short enough is copied as it is. -/
theorem visible_strncpy (hspace : space ∉ s.chars) (hlen : s.length ≤ wireSize) :
    visible (strncpy s.chars wireSize) = s.chars := by
  have htake : s.chars.take wireSize = s.chars := List.take_of_length_le (by rwa [s.length_chars])
  have hvisible : ∀ c ∈ s.chars, (!isBlank c) = true := by
    intro c hc
    have h0 : c ≠ 0 := s.mem_chars_ne_zero hc
    have hsp : c ≠ space := fun h => hspace (h ▸ hc)
    simp [isBlank, h0, hsp]
  rw [strncpy, s.takeWhile_chars, htake, visible, List.takeWhile_append_of_pos hvisible]
  cases wireSize - s.chars.length with
  | zero => simp
  | succ k => simp [List.replicate_succ, isBlank_zero]

theorem cStr_ofCString (hn : wireSize < 2 ^ 63) (hspace : space ∉ s.chars)
    (hlen : s.length ≤ wireSize) : (ofCString s : ShortStringField wireSize).cStr = s.chars := by
  rw [ofCString, (BuiltFrom.string s.chars).cStr_eq_visible hn, visible_strncpy hspace hlen]

/-- Both comparisons with a C string say whether it is the string in the field. -/
theorem eqCString_iff (hn : wireSize < 2 ^ 63) (hlen : s.length ≤ wireSize)
    (a : ShortStringField wireSize) : eqCString a s.memory = true ↔ a.cStr = s.chars := by
  have hread := s.takeWhile_read (Nat.lt_of_le_of_lt hlen (lt_bufferSize hn))
  rw [eqCString, beq_iff_eq, strncmp_eq_zero_iff, hread]
  rfl

theorem ltCString_eq (a : ShortStringField wireSize) (rhs : Memory) :
    ltCString a rhs = eqCString a rhs :=
  rfl

/-- Comparing a field for equality with a C string is comparing it with the field built from it. -/
structure EqualityAgrees (ops : BoostOperators wireSize) (a : ShortStringField wireSize)
    (s : CString) : Prop where
  eq : eqCString a s.memory = (a == ofCString s)
  ne : ops.neCString a s.memory = ops.ne a (ofCString s)
  eq_right : ops.cStringEq s.memory a = (ofCString s == a)
  ne_right : ops.cStringNe s.memory a = ops.ne (ofCString s) a

/-- Comparing a field with a C string is comparing it with the field built from it. -/
structure ComparisonAgrees (ops : BoostOperators wireSize) (a : ShortStringField wireSize)
    (s : CString) : Prop extends EqualityAgrees ops a s where
  lt : ltCString a s.memory = lt a (ofCString s)
  ge : ops.geCString a s.memory = ops.ge a (ofCString s)
  gt_right : ops.cStringGt s.memory a = ops.gt (ofCString s) a
  le_right : ops.cStringLe s.memory a = ops.le (ofCString s) a

theorem eqCString_eq_beq (hn : wireSize < 2 ^ 63) (hspace : space ∉ s.chars)
    (hlen : s.length ≤ wireSize) (a : ShortStringField wireSize) :
    eqCString a s.memory = (a == ofCString s) := by
  rw [Bool.eq_iff_iff, eqCString_iff hn hlen, beq_iff, cStr_ofCString hn hspace hlen]

theorem equalityAgrees (hn : wireSize < 2 ^ 63) (hspace : space ∉ s.chars)
    (hlen : s.length ≤ wireSize) (ops : BoostOperators wireSize) (a : ShortStringField wireSize) :
    EqualityAgrees ops a s := by
  have heq := eqCString_eq_beq hn hspace hlen a
  refine ⟨heq, ?_, ?_, ?_⟩
  · rw [ops.neCString_eq, ops.ne_eq, heq]
  · rw [ops.cStringEq_eq, heq, beq_comm]
  · rw [ops.cStringNe_eq, ops.ne_eq, heq, beq_comm]

/-- The comparisons for order agree exactly with the strings that are less than the one in the field:
only there `operator<` and `operator==` give the same answer. -/
theorem ltCString_eq_lt_iff (hn : wireSize < 2 ^ 63) (hspace : space ∉ s.chars)
    (hlen : s.length ≤ wireSize) (a : ShortStringField wireSize) :
    ltCString a s.memory = lt a (ofCString s) ↔ s.chars < a.cStr := by
  have hless : ShortStringField.lt (ofCString s) a = true ↔ s.chars < a.cStr := by
    rw [lt_iff, cStr_ofCString hn hspace hlen]
  rw [ltCString_eq, eqCString_eq_beq hn hspace hlen, ← hless]
  rcases comparison_cases a (ofCString s) with ⟨hlt, heq, hgt⟩ | ⟨hlt, heq, hgt⟩ | ⟨hlt, heq, hgt⟩
  all_goals simp [hlt, heq, hgt]

/-- The comparisons between fields are those of a strict total order, those for equality with a C
string agree with them, and all of those with a C string do exactly when the C string is less than
the string in the field. -/
theorem comparisonAgrees_iff (hn : wireSize < 2 ^ 63) (ops : BoostOperators wireSize)
    (a : ShortStringField wireSize) (s : CString) (hspace : space ∉ s.chars)
    (hlen : s.length ≤ wireSize) :
    OrderLaws ops ∧ EqualityAgrees ops a s ∧ (ComparisonAgrees ops a s ↔ s.chars < a.cStr) := by
  have hequality := equalityAgrees hn hspace hlen ops a
  have horder := ltCString_eq_lt_iff hn hspace hlen a
  refine ⟨orderLaws ops, hequality, fun hagrees => horder.1 hagrees.lt, fun hless => ?_⟩
  have hlt := horder.2 hless
  refine ⟨hequality, hlt, ?_, ?_, ?_⟩
  · rw [ops.geCString_eq, ops.ge_eq, hlt]
  · rw [ops.cStringGt_eq, ops.gt_eq, hlt]
  · rw [ops.cStringLe_eq, ops.le_eq, hlt]

end CString

/-- The C string of these characters. -/
def cStringOf (chars : List UInt8) (h : ∀ c ∈ chars, c ≠ 0) : CString where
  memory := Memory.ofList chars
  length := chars.length
  terminated := by simp [Memory.ofList]
  ne_zero i hi := by
    rw [Memory.ofList, List.getD_eq_getElem _ _ hi]
    exact h _ (List.getElem_mem hi)

/-- The strings `A` and `B` -/
def stringA : CString := cStringOf [65] (List.forall_mem_singleton.2 (by decide))

def stringB : CString := cStringOf [66] (List.forall_mem_singleton.2 (by decide))

theorem comparisonAgrees_iff_B_A :
    OrderLaws (BoostOperators.documented 4) ∧
      EqualityAgrees (BoostOperators.documented 4) (ofCString stringB) stringA ∧
      (ComparisonAgrees (BoostOperators.documented 4) (ofCString stringB) stringA ↔
        stringA.chars < (ofCString stringB : ShortStringField 4).cStr) :=
  comparisonAgrees_iff (by decide) _ _ _ (by decide) (by decide)

/-- A field that holds `A` is less than the field built from `B`, and not less than the C string. -/
theorem not_comparisonAgrees_A_B :
    ¬ ∀ (wireSize : Nat) (ops : BoostOperators wireSize) (a : ShortStringField wireSize)
      (s : CString), wireSize < 2 ^ 63 → space ∉ s.chars → s.length ≤ wireSize →
      ComparisonAgrees ops a s := by
  intro h
  have hagrees := h 4 (BoostOperators.documented 4) (ofCString stringA) stringB (by decide)
    (by decide) (by decide)
  have hcString : ltCString (ofCString stringA : ShortStringField 4) stringB.memory = false := by
    decide +kernel
  have hfield : lt (ofCString stringA : ShortStringField 4) (ofCString stringB) = true := by
    decide +kernel
  have hlt := hagrees.lt
  rw [hcString, hfield] at hlt
  cases hlt

end ShortStringField

end JayBeams.Itch5
