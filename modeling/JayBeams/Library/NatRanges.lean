import Mathlib.Data.List.Basic
import Mathlib.Order.Interval.Set.Defs
import Mathlib.Order.Nat

/-!
# Sets of numbers as lists of ranges

A list of ranges lists a set of natural numbers from a number on (`ListsFrom`) when the ranges follow
one another with a number between each two, and cover exactly the members of the set from there on. Such
a list is what a scan of the set from left to right produces, and each step of the scan is one rule: the
end of the set (`ListsFrom.nil`), a number that is no member (`listsFrom_succ_iff`), and a maximal run of
members (`ListsFrom.cons`).
-/

set_option autoImplicit false

/-- A range of numbers, with its first and its last one. -/
structure NatRange where
  lo : Nat
  hi : Nat
  le : lo ≤ hi

namespace NatRange

/-- The numbers of the range. -/
def toSet (r : NatRange) : Set Nat := Set.Icc r.lo r.hi

/-- The ranges lie at a number or after it, each of them behind the one before and apart from it. -/
def SeparatedFrom : Nat → List NatRange → Prop
  | _, [] => True
  | i, r :: rs => i ≤ r.lo ∧ SeparatedFrom (r.hi + 2) rs

theorem SeparatedFrom.mono {i j : Nat} (hij : i ≤ j) {rs : List NatRange} (h : SeparatedFrom j rs) :
    SeparatedFrom i rs := by
  cases rs with
  | nil => trivial
  | cons r rs => exact ⟨Nat.le_trans hij h.1, h.2⟩

theorem SeparatedFrom.le_lo {i : Nat} {rs : List NatRange} (h : SeparatedFrom i rs) :
    ∀ r ∈ rs, i ≤ r.lo := by
  induction rs generalizing i with
  | nil => exact List.forall_mem_nil _
  | cons r rs ih =>
      obtain ⟨hlo, hrest⟩ := h
      refine List.forall_mem_cons.2 ⟨hlo, fun r' hr' => ?_⟩
      have hle := r.le
      have hafter := ih hrest r' hr'
      omega

/-- Separated ranges are in increasing order, and no two of them overlap or touch. -/
theorem SeparatedFrom.pairwise {i : Nat} {rs : List NatRange} (h : SeparatedFrom i rs) :
    rs.Pairwise fun r r' => r.hi + 1 < r'.lo := by
  induction rs generalizing i with
  | nil => exact List.Pairwise.nil
  | cons r rs ih => exact List.Pairwise.cons (fun r' hr' => h.2.le_lo r' hr') (ih h.2)

/-- The ranges are separated and cover the members of the set from a number on. -/
structure ListsFrom (S : Set Nat) (i : Nat) (rs : List NatRange) : Prop where
  separated : SeparatedFrom i rs
  mem_iff : ∀ n, (∃ r ∈ rs, n ∈ r.toSet) ↔ i ≤ n ∧ n ∈ S

variable {S : Set Nat} {i : Nat} {rs : List NatRange}

/-- A set without members from the number on. -/
theorem ListsFrom.nil (h : ∀ n ∈ S, n < i) : ListsFrom S i [] := by
  refine ⟨trivial, fun n => ⟨?_, ?_⟩⟩
  · rintro ⟨r, hr, -⟩
    cases hr
  · rintro ⟨hi, hn⟩
    exact absurd (h n hn) (Nat.not_lt.2 hi)

/-- A number that is no member makes no difference. -/
theorem listsFrom_succ_iff (h : i ∉ S) : ListsFrom S (i + 1) rs ↔ ListsFrom S i rs := by
  have hmem : ∀ n, i + 1 ≤ n ∧ n ∈ S ↔ i ≤ n ∧ n ∈ S := by
    intro n
    refine and_congr_left fun hn => ⟨Nat.le_of_succ_le, fun hle => ?_⟩
    rcases Nat.lt_or_eq_of_le hle with hlt | heq
    · exact hlt
    · exact absurd (heq ▸ hn) h
  constructor
  · rintro ⟨hseparated, hiff⟩
    exact ⟨hseparated.mono (Nat.le_succ i), fun n => (hiff n).trans (hmem n)⟩
  · rintro ⟨hseparated, hiff⟩
    refine ⟨?_, fun n => (hiff n).trans (hmem n).symm⟩
    cases rs with
    | nil => trivial
    | cons r rs =>
        -- The first number of the first range is a member, and so it is not the number left out.
        have hfirst := (hiff r.lo).1 ⟨r, List.mem_cons_self, le_rfl, r.le⟩
        exact ⟨((hmem r.lo).2 hfirst).1, hseparated.2⟩

/-- A maximal run of members comes first. -/
theorem ListsFrom.cons {r : NatRange} (hrun : r.toSet ⊆ S) (hend : r.hi + 1 ∉ S)
    (h : ListsFrom S (r.hi + 1) rs) : ListsFrom S r.lo (r :: rs) := by
  have hrest := (listsFrom_succ_iff hend).2 h
  refine ⟨⟨le_rfl, hrest.separated⟩, fun n => ?_⟩
  have hle := r.le
  rw [List.exists_mem_cons_iff, h.mem_iff]
  constructor
  · rintro (hn | ⟨hn, hS⟩)
    · exact ⟨hn.1, hrun hn⟩
    · exact ⟨by omega, hS⟩
  · rintro ⟨hlo, hS⟩
    rcases Nat.lt_or_ge r.hi n with hn | hn
    · exact Or.inr ⟨hn, hS⟩
    · exact Or.inl ⟨hlo, hn⟩

end NatRange
