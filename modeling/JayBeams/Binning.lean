import JayBeams.Common
import Mathlib.Data.List.GetD
import Mathlib.Data.Rat.Floor

/-!
# Binning strategies

A binning strategy of a histogram splits a range of integers into consecutive bins.
`IntegerRangeBinning` has a bin for each integer of the range, `ExplicitCutsBinning` one for each two
consecutive cuts. Samples are mathematical integers here, so nothing overflows; of the type of the
samples only the limits are left.

`Edges` is what a histogram relies on: the bins meet at increasing edges, and a sample of the range
is in the bin between whose edges it lies. Both strategies have such edges (`LawfulBinning`).
-/

set_option autoImplicit false

namespace JayBeams

/-- The limits of an integral type. -/
structure IntegralType where
  min : Int
  max : Int

/-- The binning strategy concept -/
class BinningStrategy (β : Type) where
  histogramMin : β → Int
  histogramMax : β → Int
  theoreticalMin : β → Int
  theoreticalMax : β → Int
  sample2bin : β → Int → Nat
  bin2sample : β → Nat → Except Failure Int
  interpolate : β → Int → Int → Rat → Rat → Rat → Int

/-- `histogram_binning_linear_interpolation` -/
def histogramBinningLinearInterpolation (xa xb : Int) (ya s q : Rat) : Int :=
  ⌊xa + (q - ya) * (xb - xa : Int) / s⌋

section Interpolation

variable {xa xb : Int} {ya s q q' : Rat}

/-- The interpolation grows with the quantile. -/
theorem interpolation_mono (hx : xa ≤ xb) (hs : 0 < s) (hq : q ≤ q') :
    histogramBinningLinearInterpolation xa xb ya s q ≤
      histogramBinningLinearInterpolation xa xb ya s q' := by
  have hwidth : (0 : Rat) ≤ (xb - xa : Int) := by exact_mod_cast Int.sub_nonneg.2 hx
  apply Int.floor_le_floor
  gcongr

/-- At the start of the cell -/
@[simp] theorem interpolation_start (xa xb : Int) (ya s : Rat) :
    histogramBinningLinearInterpolation xa xb ya s ya = xa := by
  rw [histogramBinningLinearInterpolation, sub_self, zero_mul, zero_div, add_zero, Int.floor_intCast]

/-- At the end of the cell -/
theorem interpolation_end (xa xb : Int) (ya : Rat) (hs : s ≠ 0) :
    histogramBinningLinearInterpolation xa xb ya s (ya + s) = xb := by
  have hend : (xa : Rat) + (ya + s - ya) * (xb - xa : Int) / s = (xb : Int) := by
    rw [add_sub_cancel_left, mul_div_cancel_left₀ _ hs, Int.cast_sub, add_sub_cancel]
  rw [histogramBinningLinearInterpolation, hend, Int.floor_intCast]

/-- The interpolation stays between its ends. -/
theorem interpolation_mem (hx : xa ≤ xb) (hs : 0 < s) (hlo : ya ≤ q) (hhi : q ≤ ya + s) :
    xa ≤ histogramBinningLinearInterpolation xa xb ya s q ∧
      histogramBinningLinearInterpolation xa xb ya s q ≤ xb := by
  constructor
  · calc xa = histogramBinningLinearInterpolation xa xb ya s ya := (interpolation_start ..).symm
      _ ≤ _ := interpolation_mono hx hs hlo
  · calc _ ≤ histogramBinningLinearInterpolation xa xb ya s (ya + s) := interpolation_mono hx hs hhi
      _ = xb := interpolation_end xa xb ya hs.ne'

end Interpolation

/-! ## Ranges of integers -/

/-- `integer_range_binning`; its constructor refuses a range that is empty. -/
structure IntegerRangeBinning (τ : IntegralType) where
  hMin : Int
  hMax : Int
  hMin_lt_hMax : hMin < hMax

/-- The constructor -/
def IntegerRangeBinning.make (τ : IntegralType) (hMin hMax : Int) :
    Except Failure (IntegerRangeBinning τ) :=
  if h : hMin < hMax then .ok ⟨hMin, hMax, h⟩
  else
    .error (.invalidArgument (s!"jb::integer_range_binning requires h_min ({hMin})" ++
      s!" to be less than h_max ({hMax})"))

/-- A histogram asks for the bins of samples in its range only, so the conversion of a negative
difference does not matter. -/
instance (τ : IntegralType) : BinningStrategy (IntegerRangeBinning τ) where
  histogramMin b := b.hMin
  histogramMax b := b.hMax
  theoreticalMin _ := τ.min
  theoreticalMax _ := τ.max
  sample2bin b t := (t - b.hMin).toNat
  bin2sample b i := .ok (b.hMin + i)
  interpolate _ := histogramBinningLinearInterpolation

/-! ## Explicit cuts -/

/-- `explicit_cuts_binning`; its constructor refuses cuts that are fewer than two or do not increase. -/
structure ExplicitCutsBinning (τ : IntegralType) where
  cuts : List Int
  size : 2 ≤ cuts.length
  sorted : cuts.Pairwise (· < ·)

namespace ExplicitCutsBinning

variable {τ : IntegralType}

/-- Sorted cuts of which no two adjacent ones are equal increase. -/
theorem pairwise_lt_of_unique {cuts : List Int} (hsorted : cuts.Pairwise (· ≤ ·))
    (hunique : cuts.IsChain (· ≠ ·)) : cuts.Pairwise (· < ·) := by
  apply List.isChain_iff_pairwise.1
  induction cuts with
  | nil => exact List.IsChain.nil
  | cons x xs ih =>
      obtain ⟨hx, hxs⟩ := List.pairwise_cons.1 hsorted
      cases xs with
      | nil => exact List.IsChain.singleton x
      | cons y ys =>
          obtain ⟨hne, hrest⟩ := List.isChain_cons_cons.1 hunique
          exact List.isChain_cons_cons.2
            ⟨lt_of_le_of_ne (hx y List.mem_cons_self) hne, ih hxs hrest⟩

/-- The constructor, on the elements of its range -/
def make (τ : IntegralType) (cuts : List Int) : Except Failure (ExplicitCutsBinning τ) :=
  if hsize : cuts.length < 2 then
    .error (.invalidArgument "explicit_cuts_binning requires at least 2 cuts")
  else if hsorted : ¬ cuts.Pairwise (· ≤ ·) then
    .error (.invalidArgument "explicit_cuts_binning requires a sorted set of cuts")
  else if hunique : ¬ cuts.IsChain (· ≠ ·) then
    .error (.invalidArgument "explicit_cuts_binning requires unique elements")
  else .ok ⟨cuts, by omega, pairwise_lt_of_unique (not_not.1 hsorted) (not_not.1 hunique)⟩

/-- There is a first cut and a last one. -/
theorem cuts_ne_nil (b : ExplicitCutsBinning τ) : b.cuts ≠ [] := by
  intro h
  have hsize := b.size
  rw [h] at hsize
  exact absurd hsize (by decide)

/-- `std::upper_bound` on the cuts: the first cut above a sample -/
def upperBound (b : ExplicitCutsBinning τ) (t : Int) : Nat := b.cuts.findIdx (t < ·)

/-- `cuts_[i]` -/
def cut (b : ExplicitCutsBinning τ) (i : Nat) : Except Failure Int :=
  match b.cuts[i]? with
  | some x => .ok x
  | none => .error (.outOfRange i b.cuts.length)

/-- No sample in the range of a histogram is below the first cut, so the difference is not negative. -/
instance : BinningStrategy (ExplicitCutsBinning τ) where
  histogramMin b := b.cuts.head b.cuts_ne_nil
  histogramMax b := b.cuts.getLast b.cuts_ne_nil
  theoreticalMin _ := τ.min
  theoreticalMax _ := τ.max
  sample2bin b t := b.upperBound t - 1
  bin2sample b i := b.cut i
  interpolate _ := histogramBinningLinearInterpolation

end ExplicitCutsBinning

/-! ## Edges -/

open BinningStrategy

section Edges

variable {β : Type} [BinningStrategy β]

/-- The strategy has `n` bins, which meet at the edges: bin `i` holds the samples from `edge i` on
that are below `edge (i + 1)`. -/
structure Edges (b : β) (n : Nat) (edge : Nat → Int) : Prop where
  first : edge 0 = histogramMin b
  last : edge n = histogramMax b
  mono : ∀ i j, i ≤ j → j ≤ n → edge i ≤ edge j
  size : sample2bin b (histogramMax b) - sample2bin b (histogramMin b) = n
  bin2sample : ∀ i, i ≤ n → bin2sample b i = .ok (edge i)
  sample2bin : ∀ t, histogramMin b ≤ t → t < histogramMax b →
    sample2bin b t < n ∧ edge (sample2bin b t) ≤ t ∧ t < edge (sample2bin b t + 1)
  interpolate : interpolate b = histogramBinningLinearInterpolation

/-- Every object of the strategy has edges. -/
class LawfulBinning (β : Type) [BinningStrategy β] : Prop where
  exists_edges : ∀ b : β, ∃ n edge, Edges b n edge

/-- A sample lies between the edges of its bin only. -/
theorem Edges.sample2bin_eq_iff {b : β} {n : Nat} {edge : Nat → Int} (h : Edges b n edge) {t : Int}
    (hmin : histogramMin b ≤ t) (hmax : t < histogramMax b) {i : Nat} (hi : i < n) :
    edge i ≤ t ∧ t < edge (i + 1) ↔ i = BinningStrategy.sample2bin b t := by
  obtain ⟨hlt, hlo, hhi⟩ := h.sample2bin t hmin hmax
  constructor
  · rintro ⟨hlo', hhi'⟩
    rcases lt_trichotomy i (BinningStrategy.sample2bin b t) with hij | hij | hij
    · have hle := h.mono (i + 1) _ hij hlt.le
      omega
    · exact hij
    · have hle := h.mono (BinningStrategy.sample2bin b t + 1) i hij hi.le
      omega
  · rintro rfl
    exact ⟨hlo, hhi⟩

end Edges

/-- The edges of a range are its integers. -/
theorem IntegerRangeBinning.edges {τ : IntegralType} (b : IntegerRangeBinning τ) :
    Edges b (b.hMax - b.hMin).toNat (fun i => b.hMin + i) := by
  have hlt := b.hMin_lt_hMax
  constructor
  · exact Int.add_zero b.hMin
  · change b.hMin + ((b.hMax - b.hMin).toNat : Int) = b.hMax
    omega
  · intro i j hij _
    omega
  · change (b.hMax - b.hMin).toNat - (b.hMin - b.hMin).toNat = (b.hMax - b.hMin).toNat
    omega
  · intro i _
    rfl
  · intro t hmin hmax
    change b.hMin ≤ t at hmin
    change t < b.hMax at hmax
    change (t - b.hMin).toNat < (b.hMax - b.hMin).toNat ∧ b.hMin + ((t - b.hMin).toNat : Int) ≤ t ∧
      t < b.hMin + (((t - b.hMin).toNat + 1 : Nat) : Int)
    omega
  · rfl

/-- The bins of a range have one integer each. -/
instance (τ : IntegralType) : LawfulBinning (IntegerRangeBinning τ) where
  exists_edges b := ⟨_, _, b.edges⟩

namespace ExplicitCutsBinning

variable {τ : IntegralType} (b : ExplicitCutsBinning τ)

/-- Cuts increase. -/
theorem cut_lt_cut {i j : Nat} (hij : i < j) (hj : j < b.cuts.length) :
    b.cuts.getD i 0 < b.cuts.getD j 0 := by
  rw [List.getD_eq_getElem _ _ (hij.trans hj), List.getD_eq_getElem _ _ hj]
  exact List.pairwise_iff_getElem.1 b.sorted i j _ _ hij

/-- The cuts before the upper bound of a sample are not above it, the others are. -/
theorem upperBound_spec (t : Int) {i : Nat} (hi : i < b.cuts.length) :
    t < b.cuts.getD i 0 ↔ b.upperBound t ≤ i := by
  constructor
  · intro hlt
    by_contra hbefore
    have hnot := List.not_of_lt_findIdx (not_le.1 hbefore)
    rw [List.getD_eq_getElem _ _ hi] at hlt
    simp [hlt] at hnot
  · intro hle
    have hlen : b.upperBound t < b.cuts.length := lt_of_le_of_lt hle hi
    have hup : t < b.cuts.getD (b.upperBound t) 0 := by
      rw [List.getD_eq_getElem _ _ hlen]
      exact of_decide_eq_true (List.findIdx_getElem (w := hlen))
    rcases hle.eq_or_lt with heq | hlt
    · rwa [← heq]
    · exact hup.trans (b.cut_lt_cut hlt hi)

/-- The upper bound is a cut or the end. -/
theorem upperBound_le (t : Int) : b.upperBound t ≤ b.cuts.length := List.findIdx_le_length

/-- The least sample of the range is the first cut. -/
theorem head_cuts : b.cuts.head b.cuts_ne_nil = b.cuts.getD 0 0 := by
  rw [List.getD_eq_getElem _ _ (by have := b.size; omega), List.head_eq_getElem]

/-- The end of the range is the last cut. -/
theorem getLast_cuts : b.cuts.getLast b.cuts_ne_nil = b.cuts.getD (b.cuts.length - 1) 0 := by
  rw [List.getD_eq_getElem _ _ (by have := b.size; omega), List.getLast_eq_getElem]

/-- The upper bound of a cut is the next one. -/
theorem upperBound_cut {i : Nat} (hi : i < b.cuts.length) :
    b.upperBound (b.cuts.getD i 0) = i + 1 := by
  have hself := (b.upperBound_spec (b.cuts.getD i 0) hi).not.1 (lt_irrefl _)
  have hle := b.upperBound_le (b.cuts.getD i 0)
  by_cases hnext : i + 1 < b.cuts.length
  · have hup := (b.upperBound_spec _ hnext).1 (b.cut_lt_cut (Nat.lt_succ_self i) hnext)
    omega
  · omega

/-- The edges are the cuts. -/
theorem edges : Edges b (b.cuts.length - 1) (fun i => b.cuts.getD i 0) := by
  have hsize := b.size
  constructor
  · exact b.head_cuts.symm
  · exact b.getLast_cuts.symm
  · intro i j hij hj
    rcases hij.eq_or_lt with rfl | hlt
    · exact le_refl _
    · exact (b.cut_lt_cut hlt (by omega)).le
  · change b.upperBound (b.cuts.getLast b.cuts_ne_nil) - 1 -
      (b.upperBound (b.cuts.head b.cuts_ne_nil) - 1) = b.cuts.length - 1
    rw [head_cuts, getLast_cuts, upperBound_cut _ (by omega), upperBound_cut _ (by omega)]
    omega
  · intro i hi
    have hlt : i < b.cuts.length := by omega
    change b.cut i = .ok (b.cuts.getD i 0)
    rw [cut, List.getElem?_eq_getElem hlt, List.getD_eq_getElem _ _ hlt]
  · intro t hmin hmax
    change b.cuts.head b.cuts_ne_nil ≤ t at hmin
    change t < b.cuts.getLast b.cuts_ne_nil at hmax
    rw [head_cuts, ← not_lt, b.upperBound_spec t (by omega), not_le] at hmin
    rw [getLast_cuts, b.upperBound_spec t (by omega)] at hmax
    change b.upperBound t - 1 < b.cuts.length - 1 ∧ b.cuts.getD (b.upperBound t - 1) 0 ≤ t ∧
      t < b.cuts.getD (b.upperBound t - 1 + 1) 0
    rw [Nat.sub_add_cancel hmin, ← not_lt, b.upperBound_spec t (by omega),
      b.upperBound_spec t (by omega)]
    omega
  · rfl

/-- The bins lie between the cuts. -/
instance : LawfulBinning (ExplicitCutsBinning τ) where
  exists_edges b := ⟨_, _, b.edges⟩

end ExplicitCutsBinning

end JayBeams
