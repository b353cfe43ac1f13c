import JayBeams.Histogram
import JayBeams.Library.CInteger
import Mathlib.Algebra.BigOperators.Intervals
import Mathlib.Algebra.Order.BigOperators.Group.Finset

/-!
# The estimated mean of a histogram

`estimated_mean` adds up the midpoints of the cells, each times the number of samples in its cell, and
divides by the number of samples. The midpoints and the accumulator are of the type `τ` of the samples
and the bins of the type `κ` of the counters, the other counts are `std::uint64_t`, so that every
operation converts its operands. The model follows these conversions; a signed overflow stops it.

As long as nothing wraps on the way the accumulator holds the sum of the exact products
(`estimatedMean_eq`), and the mean of the midpoints lies between the limits (`meanTotal_bounds`). The
last division is one of unsigned numbers. It returns the mean when the accumulator is not negative; a
negative one is converted to a number close to `2 ^ 64` first (`meanInRange_iff`), which does no harm
when the number of samples divides what is left of `2 ^ 64` after the modulus (`wrapsBack_of_dvd`).
`estimatedMean_mem` puts these conditions together.
-/

set_option autoImplicit false

namespace JayBeams

open BinningStrategy CInteger
open IntType (add div common int uint64 addProduct)

/-- How `estimated_mean` ends without a result -/
inductive MeanFailure where
  | raised (e : Failure)
  | signedOverflow
  deriving DecidableEq, Repr

/-- The limits of an integer type, as the binning strategies ask for them -/
def limitsOf (τ : IntType) : IntegralType := ⟨τ.min, τ.max⟩

namespace Histogram

variable {β : Type} [BinningStrategy β]

/-- The result of an arithmetic operation -/
def arithmetic (x : Except SignedOverflow Int) : Except MeanFailure Int :=
  x.mapError fun _ => .signedOverflow

section Types

variable (τ κ : IntType)

/-- `midpoint`: the sum and the quotient are of the promoted type. -/
def midpoint (a b : Int) : Except MeanFailure Int := do
  let sum ← arithmetic (add τ τ a b)
  let half ← arithmetic (div (common τ τ) int sum 2)
  return τ.convert half

/-- `acc += midpoint(a, b) * count`, for a count of type `ν` -/
def addMidpoint (ν : IntType) (acc a b count : Int) : Except MeanFailure Int := do
  let mid ← midpoint τ a b
  arithmetic (addProduct τ τ ν acc mid count)

/-- The part of `estimated_mean` for a cell outside the range, which is left out when it is empty -/
def addOuter (acc a b count : Int) : Except MeanFailure Int :=
  if count ≠ 0 then addMidpoint τ uint64 acc a b count else .ok acc

/-- The value of `bins_[i]` after additions of weights that sum up to `total` -/
def counter (total : Nat) : Except MeanFailure Int :=
  if κ.promote = κ then arithmetic (κ.result total) else .ok (κ.convert total)

/-- The loop of `estimated_mean` over the bins from `i` on -/
def addBins (h : Histogram β) : List Nat → (i : Nat) → (a acc : Int) → Except MeanFailure Int
  | [], _, _, acc => .ok acc
  | total :: rest, i, a, acc => do
    let b ← (bin2sample h.binning (i + 1)).mapError .raised
    let count ← counter κ total
    let acc ← addMidpoint τ κ acc a b count
    addBins h rest (i + 1) b acc

/-- `estimated_mean` -/
def estimatedMean (h : Histogram β) : Except MeanFailure Int := do
  let nsamples := uint64.convert h.nsamples
  if nsamples = 0 then
    throw (.raised (.invalidArgument "Cannot estimate mean on an empty histogram"))
  let underflowCount := uint64.convert h.underflowCount
  let acc ← addOuter τ 0 h.observedMin (histogramMin h.binning) underflowCount
  let acc ← addBins τ κ h h.bins 0 (histogramMin h.binning) acc
  let overflowCount := uint64.convert h.overflowCount
  let acc ← addOuter τ acc (histogramMax h.binning) h.observedMax overflowCount
  let mean ← arithmetic (div τ uint64 acc nsamples)
  return τ.convert mean

end Types

/-! ## The exact sum -/

/-- The midpoint, rounded towards zero -/
def exactMidpoint (a b : Int) : Int := (a + b).tdiv 2

/-- The midpoint of the cell below the range, times its samples -/
def underflowTerm (h : Histogram β) : Int :=
  exactMidpoint h.observedMin (histogramMin h.binning) * h.underflowCount

/-- The midpoint of a bin, times its samples -/
def binTerm (h : Histogram β) (edge : Nat → Int) (i : Nat) : Int :=
  exactMidpoint (edge i) (edge (i + 1)) * (h.bins.getD i 0 : Nat)

/-- The midpoint of the cell above the range, times its samples -/
def overflowTerm (h : Histogram β) : Int :=
  exactMidpoint (histogramMax h.binning) h.observedMax * h.overflowCount

/-- The accumulator before the bin `k` -/
def meanSum (h : Histogram β) (edge : Nat → Int) (k : Nat) : Int :=
  h.underflowTerm + ∑ i ∈ Finset.range k, h.binTerm edge i

/-- The accumulator at the end -/
def meanTotal (h : Histogram β) (n : Nat) (edge : Nat → Int) : Int :=
  h.meanSum edge n + h.overflowTerm

/-- The accumulator does not overflow the type of the samples. -/
structure AccumulatorFits (τ : IntType) (h : Histogram β) (n : Nat) (edge : Nat → Int) : Prop where
  sums : ∀ k, k ≤ n → τ.InRange (h.meanSum edge k)
  total : τ.InRange (h.meanTotal n edge)

/-- Neither the counters nor the sums of the midpoints wrap, and no signed product overflows. The
midpoint of an empty bin may be anything, as long as it is defined. -/
structure NothingWraps (τ κ : IntType) (h : Histogram β) (n : Nat) (edge : Nat → Int) : Prop where
  nsamples : uint64.InRange h.nsamples
  counters : ∀ i, i < n → κ.InRange (h.bins.getD i 0 : Nat)
  underflow : h.underflowCount ≠ 0 →
    (common τ τ).InRange (h.observedMin + histogramMin h.binning)
  midpoints : ∀ i, i < n → (common τ τ).signed = true ∨ h.bins.getD i 0 ≠ 0 →
    (common τ τ).InRange (edge i + edge (i + 1))
  products : ∀ i, i < n → (common τ κ).signed = true → (common τ κ).InRange (h.binTerm edge i)
  overflow : h.overflowCount ≠ 0 →
    (common τ τ).InRange (histogramMax h.binning + h.observedMax)

/-- The limits of the range, and those of the type that the strategy gives, are values of the type. -/
structure OfType (τ : IntType) (b : β) : Prop where
  histogramMin : τ.InRange (histogramMin b)
  histogramMax : τ.InRange (histogramMax b)
  theoreticalMin : τ.InRange (theoreticalMin b)
  theoreticalMax : τ.InRange (theoreticalMax b)

/-- The mean is estimated, and it lies between the limits. -/
def MeanInRange (τ κ : IntType) (h : Histogram β) : Prop :=
  ∃ mean, estimatedMean τ κ h = .ok mean ∧
    min h.observedMin (histogramMin h.binning) ≤ mean ∧
    mean ≤ max h.observedMax (histogramMax h.binning)

/-! ## The mean lies between the limits -/

/-- A midpoint lies between any limits of its ends. -/
theorem exactMidpoint_bounds {a b lo hi : Int} (ha : lo ≤ a ∧ a ≤ hi) (hb : lo ≤ b ∧ b ≤ hi) :
    lo ≤ exactMidpoint a b ∧ exactMidpoint a b ≤ hi := by
  rw [exactMidpoint]
  -- The division rounds towards zero, so the sign of the sum decides which way.
  rcases le_total 0 (a + b) with hsign | hsign
  · rw [Int.tdiv_eq_ediv_of_nonneg hsign]
    omega
  · obtain ⟨c, hc⟩ : ∃ c, a + b = -c := ⟨-(a + b), (neg_neg _).symm⟩
    rw [hc, Int.neg_tdiv, Int.tdiv_eq_ediv_of_nonneg (by omega)]
    omega

/-- A term is between the limits times the samples of its cell. -/
theorem term_bounds {mid lo hi : Int} (count : Nat) (h : lo ≤ mid ∧ mid ≤ hi) :
    lo * count ≤ mid * count ∧ mid * count ≤ hi * count :=
  ⟨mul_le_mul_of_nonneg_right h.1 (Int.natCast_nonneg _),
    mul_le_mul_of_nonneg_right h.2 (Int.natCast_nonneg _)⟩

theorem meanSum_succ (h : Histogram β) (edge : Nat → Int) (k : Nat) :
    h.meanSum edge (k + 1) = h.meanSum edge k + h.binTerm edge k := by
  rw [meanSum, meanSum, Finset.sum_range_succ, add_assoc]

section Bounds

variable {n : Nat} {edge : Nat → Int} {xs : List Int} {h : Histogram β}

/-- The lower limit of the estimate -/
def meanMin (h : Histogram β) : Int := min h.observedMin (histogramMin h.binning)

/-- The upper limit of the estimate -/
def meanMax (h : Histogram β) : Int := max h.observedMax (histogramMax h.binning)

theorem Records.observed_le (hr : Records n edge xs h) (hne : xs ≠ []) :
    h.observedMin ≤ h.observedMax := by
  obtain ⟨x, hx⟩ := List.exists_mem_of_ne_nil xs hne
  exact (hr.observedMin x hx).trans (hr.observedMax x hx)

theorem Records.edge_bounds (hr : Records n edge xs h) {i : Nat} (hi : i ≤ n) :
    histogramMin h.binning ≤ edge i ∧ edge i ≤ histogramMax h.binning := by
  rw [← hr.edges.first, ← hr.edges.last]
  exact ⟨hr.edges.mono 0 i (Nat.zero_le i) hi, hr.edges.mono i n hi (le_refl n)⟩

/-- The limits of the estimate are limits of the ends of all cells. -/
theorem Records.ends_bounds (hr : Records n edge xs h) (hne : xs ≠ []) :
    (h.meanMin ≤ h.observedMin ∧ h.observedMin ≤ h.meanMax) ∧
      (h.meanMin ≤ h.observedMax ∧ h.observedMax ≤ h.meanMax) ∧
      ∀ i, i ≤ n → h.meanMin ≤ edge i ∧ edge i ≤ h.meanMax := by
  have hobserved := hr.observed_le hne
  have hminl := min_le_left h.observedMin (histogramMin h.binning)
  have hminr := min_le_right h.observedMin (histogramMin h.binning)
  have hmaxl := le_max_left h.observedMax (histogramMax h.binning)
  have hmaxr := le_max_right h.observedMax (histogramMax h.binning)
  rw [meanMin, meanMax]
  refine ⟨⟨hminl, hobserved.trans hmaxl⟩, ⟨hminl.trans hobserved, hmaxl⟩, ?_⟩
  intro i hi
  obtain ⟨hlo, hhi⟩ := hr.edge_bounds hi
  exact ⟨hminr.trans hlo, hhi.trans hmaxr⟩

/-- Before each bin the sum is between the limits times the samples so far. -/
theorem Records.meanSum_bounds (hr : Records n edge xs h) (hne : xs ≠ []) {k : Nat} (hk : k ≤ n) :
    h.meanMin * (h.underflowCount + (h.bins.take k).sum : Nat) ≤ h.meanSum edge k ∧
      h.meanSum edge k ≤ h.meanMax * (h.underflowCount + (h.bins.take k).sum : Nat) := by
  -- Induction on the bins. Each adds a midpoint between the limits, times its samples.
  obtain ⟨hmin, -, hedge⟩ := hr.ends_bounds hne
  induction k with
  | zero =>
      have hfirst := hedge 0 (Nat.zero_le n)
      rw [hr.edges.first] at hfirst
      rw [List.take_zero, List.sum_nil, Nat.add_zero, meanSum, Finset.sum_range_zero, add_zero,
        underflowTerm]
      exact term_bounds _ (exactMidpoint_bounds hmin hfirst)
  | succ k ih =>
      obtain ⟨hlo, hhi⟩ := ih (Nat.le_of_succ_le hk)
      have hterm := term_bounds (h.bins.getD k 0)
        (exactMidpoint_bounds (hedge k (Nat.le_of_succ_le hk)) (hedge (k + 1) hk))
      have htake : (h.bins.take (k + 1)).sum = (h.bins.take k).sum + h.bins.getD k 0 := by
        have hlt : k < h.bins.length := by rw [hr.size]; exact hk
        rw [List.take_add_one, List.sum_append, List.getElem?_eq_getElem hlt,
          List.getD_eq_getElem _ _ hlt]
        simp
      rw [meanSum_succ, htake, binTerm, ← Nat.add_assoc, Nat.cast_add _ (h.bins.getD k 0), mul_add,
        mul_add]
      exact ⟨add_le_add hlo hterm.1, add_le_add hhi hterm.2⟩

/-- The exact sum is between the limits times the number of samples. -/
theorem Records.meanTotal_bounds (hr : Records n edge xs h) (hne : xs ≠ []) :
    h.meanMin * h.nsamples ≤ h.meanTotal n edge ∧ h.meanTotal n edge ≤ h.meanMax * h.nsamples := by
  obtain ⟨-, hmax, hedge⟩ := hr.ends_bounds hne
  have hlast := hedge n (le_refl n)
  rw [hr.edges.last] at hlast
  have hterm := term_bounds h.overflowCount (exactMidpoint_bounds hlast hmax)
  obtain ⟨hlo, hhi⟩ := hr.meanSum_bounds hne (le_refl n)
  rw [List.take_of_length_le hr.size.le] at hlo hhi
  have hsum : h.nsamples = h.underflowCount + h.bins.sum + h.overflowCount := by
    rw [hr.nsamples_eq]
    omega
  rw [meanTotal, overflowTerm, hsum, Nat.cast_add _ h.overflowCount, mul_add, mul_add]
  exact ⟨add_le_add hlo hterm.1, add_le_add hhi hterm.2⟩

end Bounds

/-! ## The arithmetic is exact -/

section Exact

variable {τ κ : IntType}

theorem counter_eq {total : Nat} (h : κ.InRange total) : counter κ total = .ok (total : Int) := by
  rw [counter, IntType.result_of_inRange h, IntType.convert_of_inRange h]
  split
  · rfl
  · rfl

theorem midpoint_eq {a b : Int} (ha : τ.InRange a) (hb : τ.InRange b)
    (hsum : (common τ τ).InRange (a + b)) : midpoint τ a b = .ok (exactMidpoint a b) := by
  have hmid : τ.InRange (exactMidpoint a b) := exactMidpoint_bounds ha hb
  rw [midpoint, IntType.add_exact ha hb hsum]
  show (arithmetic (div (common τ τ) int (a + b) 2) >>= fun half => .ok (τ.convert half)) = _
  rw [IntType.div_two hsum]
  exact congrArg Except.ok (IntType.convert_of_inRange hmid)

/-- The midpoint is always defined when the sum is unsigned. -/
theorem midpoint_of_unsigned (h : (common τ τ).signed = false) (a b : Int) :
    ∃ mid, midpoint τ a b = .ok mid ∧ τ.InRange mid := by
  rw [midpoint, add, IntType.result_of_unsigned h]
  show ∃ mid, (arithmetic (div (common τ τ) int _ 2) >>= fun half => .ok (τ.convert half)) = .ok mid ∧ _
  rw [IntType.div_two ((common τ τ).inRange_convert _)]
  exact ⟨_, rfl, τ.inRange_convert _⟩

theorem arithmetic_addProduct_eq {ν : IntType} {acc mid count : Int} (hacc : τ.InRange acc)
    (hmid : τ.InRange mid) (hcount : ν.InRange count)
    (hproduct : (common τ ν).signed = true → (common τ ν).InRange (mid * count))
    (h : τ.InRange (acc + mid * count)) :
    arithmetic (addProduct τ τ ν acc mid count) = .ok (acc + mid * count) := by
  rw [IntType.addProduct_exact hacc hmid hcount hproduct h]
  rfl

/-- A cell adds its exact term to the accumulator. -/
theorem addMidpoint_eq {ν : IntType} {acc a b count : Int} (hacc : τ.InRange acc)
    (ha : τ.InRange a) (hb : τ.InRange b) (hcount : ν.InRange count)
    (hsum : (common τ τ).signed = true ∨ count ≠ 0 → (common τ τ).InRange (a + b))
    (hproduct : (common τ ν).signed = true →
      (common τ ν).InRange (exactMidpoint a b * count))
    (h : τ.InRange (acc + exactMidpoint a b * count)) :
    addMidpoint τ ν acc a b count = .ok (acc + exactMidpoint a b * count) := by
  by_cases hneeded : (common τ τ).signed = true ∨ count ≠ 0
  · have hmid : τ.InRange (exactMidpoint a b) := exactMidpoint_bounds ha hb
    rw [addMidpoint, midpoint_eq ha hb (hsum hneeded)]
    exact arithmetic_addProduct_eq hacc hmid hcount hproduct h
  · -- the sum may wrap, and the midpoint is multiplied by zero
    obtain ⟨hsigned, hzero⟩ := not_or.1 hneeded
    obtain rfl : count = 0 := not_not.1 hzero
    obtain ⟨mid, hmid, hmidRange⟩ := midpoint_of_unsigned (Bool.not_eq_true _ ▸ hsigned) a b
    rw [mul_zero] at hproduct h ⊢
    rw [addMidpoint, hmid]
    have hsame : arithmetic (addProduct τ τ ν acc mid 0) = .ok (acc + mid * 0) :=
      arithmetic_addProduct_eq hacc hmidRange hcount (by rwa [mul_zero]) (by rwa [mul_zero])
    rw [mul_zero] at hsame
    exact hsame

variable {n : Nat} {edge : Nat → Int} {xs : List Int} {h : Histogram β}

/-- The loop adds the terms of the bins. -/
theorem Records.addBins_eq (hr : Records n edge xs h) (hedge : ∀ i, i ≤ n → τ.InRange (edge i))
    (hacc : AccumulatorFits τ h n edge) (hwrap : NothingWraps τ κ h n edge) {rest : List Nat} {i : Nat}
    (hi : i ≤ n) (hrest : h.bins.drop i = rest) :
    addBins τ κ h rest i (edge i) (h.meanSum edge i) = .ok (h.meanSum edge n) := by
  induction rest generalizing i with
  | nil =>
      have hlen := List.drop_eq_nil_iff.1 hrest
      rw [hr.size] at hlen
      -- No bin is left, so the accumulator holds all their terms.
      obtain rfl : i = n := Nat.le_antisymm hi hlen
      rfl
  | cons total rest ih =>
      have hlt : i < n := by
        rw [← hr.size]
        by_contra hge
        rw [List.drop_of_length_le (Nat.le_of_not_lt hge)] at hrest
        cases hrest
      have hlen : i < h.bins.length := hr.size.symm ▸ hlt
      rw [List.drop_eq_getElem_cons hlen] at hrest
      obtain ⟨rfl, hnext⟩ := List.cons.inj hrest
      -- The counter, the midpoint, its product and the new sum are all exact for this bin.
      have hcount := hwrap.counters i hlt
      have hsum := hwrap.midpoints i hlt
      have hproduct := hwrap.products i hlt
      have hfits := hacc.sums (i + 1) hlt
      rw [meanSum_succ] at hfits
      rw [binTerm] at hproduct hfits
      rw [List.getD_eq_getElem _ _ hlen] at hcount hsum hproduct hfits
      have hadd := addMidpoint_eq (hacc.sums i hi) (hedge i hi) (hedge (i + 1) hlt) hcount
        (by simpa using hsum) hproduct hfits
      have hstep := ih hlt hnext
      rw [meanSum_succ, binTerm, List.getD_eq_getElem _ _ hlen] at hstep
      rw [addBins, hr.edges.bin2sample (i + 1) hlt, counter_eq hcount]
      show (addMidpoint τ κ _ _ _ _ >>= fun acc => addBins τ κ h rest (i + 1) (edge (i + 1)) acc) = _
      rw [hadd]
      exact hstep

/-- The count of a part of the samples is a value of the type of the number of samples. -/
theorem count_inRange {count total : Nat} (htotal : uint64.InRange total) (hle : count ≤ total) :
    uint64.InRange count :=
  IntType.inRange_of_nonneg htotal (Int.natCast_nonneg _) (Int.ofNat_le.2 hle)

/-- A cell outside the range adds its exact term, and is left out when it is empty. -/
theorem addOuter_eq {acc a b : Int} {count : Nat} (hacc : τ.InRange acc) (ha : τ.InRange a)
    (hb : τ.InRange b) (hcount : uint64.InRange count)
    (hsum : count ≠ 0 → (common τ τ).InRange (a + b))
    (h : τ.InRange (acc + exactMidpoint a b * count)) :
    addOuter τ acc a b count = .ok (acc + exactMidpoint a b * count) := by
  rw [addOuter]
  by_cases hzero : count = 0
  · subst hzero
    simp
  · have hne : (count : Int) ≠ 0 := Int.natCast_ne_zero.2 hzero
    have hunsigned : ¬ (common τ uint64).signed = true := by
      rw [IntType.common_uint64]
      decide
    rw [if_pos hne]
    exact addMidpoint_eq hacc ha hb hcount (fun _ => hsum hzero)
      (fun hsigned => absurd hsigned hunsigned) h

/-- When nothing wraps the mean is the quotient, as unsigned numbers, of the exact sum. -/
theorem Records.estimatedMean_eq (hr : Records n edge xs h) (hne : xs ≠ [])
    (hedge : ∀ i, i ≤ n → τ.InRange (edge i)) (hmin : τ.InRange h.observedMin)
    (hmax : τ.InRange h.observedMax) (hacc : AccumulatorFits τ h n edge)
    (hwrap : NothingWraps τ κ h n edge) :
    estimatedMean τ κ h =
      .ok (τ.convert (uint64.convert (h.meanTotal n edge) / (h.nsamples : Int))) := by
  have htotal := hwrap.nsamples
  have hcounts := hr.nsamples_eq
  have hunder := count_inRange htotal (show h.underflowCount ≤ h.nsamples by omega)
  have hover := count_inRange htotal (show h.overflowCount ≤ h.nsamples by omega)
  have hpos : (h.nsamples : Int) ≠ 0 := by
    rw [hr.nsamples]
    exact Int.natCast_ne_zero.2 (fun hlen => hne (List.length_eq_zero_iff.1 hlen))
  have hfirst := hedge 0 (Nat.zero_le n)
  rw [hr.edges.first] at hfirst
  have hlast := hedge n (le_refl n)
  rw [hr.edges.last] at hlast
  -- the three parts of the sum
  have hstart := hacc.sums 0 (Nat.zero_le n)
  have hstartEq : h.meanSum edge 0 =
      0 + exactMidpoint h.observedMin (histogramMin h.binning) * h.underflowCount := by
    rw [meanSum, Finset.sum_range_zero, add_zero, zero_add, underflowTerm]
  rw [hstartEq] at hstart
  have hzero : τ.InRange 0 := IntType.zero_inRange τ
  have hunderTerm := addOuter_eq hzero hmin hfirst hunder hwrap.underflow hstart
  have hbins := hr.addBins_eq hedge hacc hwrap (Nat.zero_le n) List.drop_zero
  rw [hr.edges.first, hstartEq] at hbins
  have hoverTerm := addOuter_eq (hacc.sums n (le_refl n)) hlast hmax hover hwrap.overflow hacc.total
  simp only [estimatedMean, IntType.convert_of_inRange htotal, IntType.convert_of_inRange hunder,
    IntType.convert_of_inRange hover, if_neg hpos, hunderTerm, bind, Except.bind, hbins, hoverTerm]
  rw [IntType.div_uint64 _ htotal]
  rfl

end Exact

/-! ## Values of the type -/

section Observed

variable {τ : IntType} {h h' : Histogram β}

/-- The limits observed are values of the type. -/
def ObservedInRange (τ : IntType) (h : Histogram β) : Prop :=
  τ.InRange h.observedMin ∧ τ.InRange h.observedMax

omit [BinningStrategy β] in
theorem ObservedInRange.observe (hin : ObservedInRange τ h) {t : Int} (ht : τ.InRange t)
    (weight : Nat) : ObservedInRange τ (h.observe t weight) := by
  obtain ⟨hmin, hmax⟩ := hin
  -- The sample replaces a limit or leaves it.
  rw [Histogram.observe]
  constructor
  · dsimp only
    split
    · exact ht
    · exact hmin
  · dsimp only
    split
    · exact ht
    · exact hmax

omit [BinningStrategy β] in
theorem ObservedInRange.addToBin (hin : ObservedInRange τ h) {i weight : Nat}
    (hrun : (addToBin i weight).run h = .ok () h') : ObservedInRange τ h' := by
  simp only [Histogram.addToBin, EStateM.run_bind, EStateM.run_get] at hrun
  split at hrun
  · cases hrun
    exact hin
  · cases hrun

theorem ObservedInRange.weightedSample (hin : ObservedInRange τ h) {t : Int} (ht : τ.InRange t)
    {weight : Nat} (hrun : (weightedSample t weight).run h = .ok () h') : ObservedInRange τ h' := by
  rcases Nat.eq_zero_or_pos weight with rfl | hpos
  · cases hrun
    exact hin
  · have hobserved := hin.observe ht weight
    rw [weightedSample_run h t hpos.ne'] at hrun
    split at hrun
    · exact hobserved.addToBin hrun
    · split at hrun
      · cases hrun
        exact hobserved
      · cases hrun
        exact hobserved

theorem ObservedInRange.recordAll (hin : ObservedInRange τ h) {samples : List (Int × Nat)}
    (hsamples : ∀ s ∈ samples, τ.InRange s.1) (hrun : (recordAll samples).run h = .ok () h') :
    ObservedInRange τ h' := by
  induction samples generalizing h with
  | nil =>
      cases hrun
      exact hin
  | cons s rest ih =>
      rw [Histogram.recordAll, EStateM.run_bind] at hrun
      cases hsample : (Histogram.weightedSample s.1 s.2).run h with
      | error e t =>
          rw [hsample] at hrun
          cases hrun
      | ok u h₁ =>
          rw [hsample] at hrun
          refine ih (hin.weightedSample (hsamples s List.mem_cons_self) hsample) ?_ hrun
          intro s' hs'
          exact hsamples s' (List.mem_cons_of_mem _ hs')

theorem OfType.edge {b : β} {n : Nat} {edge : Nat → Int} (hb : OfType τ b) (hedges : Edges b n edge)
    {i : Nat} (hi : i ≤ n) : τ.InRange (edge i) := by
  have hfirst := hedges.mono 0 i (Nat.zero_le i) hi
  have hlast := hedges.mono i n hi (le_refl n)
  rw [hedges.first] at hfirst
  rw [hedges.last] at hlast
  exact ⟨hb.histogramMin.1.trans hfirst, hlast.trans hb.histogramMax.2⟩

end Observed

/-! ## The quotient -/

section Quotient

variable {τ : IntType} {total lo hi : Int} {n : Nat}

theorem quotient_bounds (hpos : 0 < n) (hlo : lo * n ≤ total) (hhi : total ≤ hi * n) :
    lo ≤ total / n ∧ total / n ≤ hi := by
  have hn : (0 : Int) < n := Int.natCast_pos.2 hpos
  exact ⟨(Int.le_ediv_iff_mul_le hn).2 hlo,
    Int.le_of_lt_add_one (Int.ediv_lt_of_lt_mul hn (by rw [add_mul]; omega))⟩

/-- A negative accumulator is converted to a number close to the largest one. -/
theorem convert_negative (hτ : τ.InRange total) (hneg : total < 0) :
    uint64.convert total = 2 ^ 64 + total := by
  have hmin : -2 ^ 63 ≤ τ.min := by
    obtain ⟨tsigned, twidth⟩ := τ
    cases tsigned <;> cases twidth <;> decide
  have hlo := hmin.trans hτ.1
  apply IntType.convert_eq_of_dvd
  · change (0 : Int) ≤ _ ∧ _ ≤ (0 : Int) + 2 ^ 64 - 1
    omega
  · refine ⟨-1, ?_⟩
    change total - (2 ^ 64 + total) = 2 ^ 64 * -1
    omega

/-- The conversion of a number is between limits of the type when a number between them differs by a
multiple of the modulus. -/
theorem convert_mem_iff (hlo : τ.InRange lo) (hhi : τ.InRange hi) (x : Int) :
    lo ≤ τ.convert x ∧ τ.convert x ≤ hi ↔ ∃ m, lo ≤ m ∧ m ≤ hi ∧ τ.modulus ∣ x - m := by
  constructor
  · rintro ⟨hmin, hmax⟩
    refine ⟨τ.convert x, hmin, hmax, ?_⟩
    rw [← Int.dvd_neg, neg_sub]
    exact τ.dvd_convert_sub x
  · rintro ⟨m, hmin, hmax, hdvd⟩
    rw [IntType.convert_eq_of_dvd ⟨hlo.1.trans hmin, hmax.trans hhi.2⟩ hdvd]
    exact ⟨hmin, hmax⟩

end Quotient

section Mean

variable {τ κ : IntType} {n : Nat} {edge : Nat → Int} {h : Histogram β}

/-- The mean that is returned lies between the limits although the sum is negative: the quotient of
the unsigned division differs from a number between them by a multiple of the modulus. -/
def WrapsBack (τ : IntType) (h : Histogram β) (n : Nat) (edge : Nat → Int) : Prop :=
  ∃ mean, h.meanMin ≤ mean ∧ mean ≤ h.meanMax ∧
    τ.modulus ∣ (2 ^ 64 + h.meanTotal n edge) / (h.nsamples : Int) - mean

/-- The returned mean lies between the limits exactly when the sum is not negative, or the division of
unsigned numbers happens to wrap back to a number between them. -/
theorem Records.meanInRange_iff {xs : List Int} (hr : Records n edge xs h) (hne : xs ≠ [])
    (hb : OfType τ h.binning) (hobserved : ObservedInRange τ h) (hacc : AccumulatorFits τ h n edge)
    (hwrap : NothingWraps τ κ h n edge) :
    MeanInRange τ κ h ↔ 0 ≤ h.meanTotal n edge ∨ WrapsBack τ h n edge := by
  obtain ⟨hmin, hmax⟩ := hobserved
  have hpos : 0 < h.nsamples := by
    rw [hr.nsamples]
    exact List.length_pos_of_ne_nil hne
  obtain ⟨hlo, hhi⟩ := hr.meanTotal_bounds hne
  have hmean := hr.estimatedMean_eq hne (fun i hi => hb.edge hr.edges hi) hmin hmax hacc hwrap
  have hmeans : MeanInRange τ κ h ↔
      h.meanMin ≤ τ.convert (uint64.convert (h.meanTotal n edge) / (h.nsamples : Int)) ∧
        τ.convert (uint64.convert (h.meanTotal n edge) / (h.nsamples : Int)) ≤ h.meanMax := by
    rw [MeanInRange, hmean]
    constructor
    · rintro ⟨mean, heq, hbounds⟩
      cases heq
      exact hbounds
    · intro hbounds
      exact ⟨_, rfl, hbounds⟩
  have hminRange : τ.InRange h.meanMin := by
    rw [meanMin, min_def]
    split
    · exact hmin
    · exact hb.histogramMin
  have hmaxRange : τ.InRange h.meanMax := by
    rw [meanMax, max_def]
    split
    · exact hb.histogramMax
    · exact hmax
  rw [hmeans]
  rcases le_or_gt 0 (h.meanTotal n edge) with hnonneg | hneg
  · -- the conversion to unsigned numbers and the one back do nothing
    have htotal : uint64.InRange (h.meanTotal n edge) := by
      refine ⟨hnonneg, hacc.total.2.trans ?_⟩
      obtain ⟨tsigned, twidth⟩ := τ
      cases tsigned <;> cases twidth <;> decide
    have hquotient := quotient_bounds hpos hlo hhi
    have hrange : τ.InRange (h.meanTotal n edge / (h.nsamples : Int)) :=
      ⟨hminRange.1.trans hquotient.1, hquotient.2.trans hmaxRange.2⟩
    rw [IntType.convert_of_inRange htotal, IntType.convert_of_inRange hrange]
    exact iff_of_true hquotient (Or.inl hnonneg)
  · rw [convert_negative hacc.total hneg, convert_mem_iff hminRange hmaxRange]
    constructor
    · exact Or.inr
    · rintro (hnonneg | hwraps)
      · exact absurd hnonneg (not_le.2 hneg)
      · exact hwraps

/-- The division wraps back when the number of samples divides what is left of `2 ^ 64` after the
modulus: for a single sample, and for a power of two of samples of a type that is small enough. -/
theorem Records.wrapsBack_of_dvd {xs : List Int} (hr : Records n edge xs h) (hne : xs ≠ [])
    (hdvd : τ.modulus * h.nsamples ∣ 2 ^ 64) : WrapsBack τ h n edge := by
  have hpos : 0 < h.nsamples := by
    rw [hr.nsamples]
    exact List.length_pos_of_ne_nil hne
  have hn : (h.nsamples : Int) ≠ 0 := Int.natCast_ne_zero.2 hpos.ne'
  obtain ⟨hlo, hhi⟩ := hr.meanTotal_bounds hne
  have hquotient := quotient_bounds hpos hlo hhi
  obtain ⟨c, hc⟩ := hdvd
  -- What the conversion adds to the sum is divided without a rest.
  have hsplit : (2 ^ 64 + h.meanTotal n edge) / (h.nsamples : Int) =
      τ.modulus * c + h.meanTotal n edge / h.nsamples := by
    rw [hc, mul_right_comm, Int.add_comm (_ * _), Int.add_mul_ediv_right _ _ hn, Int.add_comm]
  refine ⟨_, hquotient.1, hquotient.2, c, ?_⟩
  rw [hsplit, add_sub_cancel_right]

/-- The conversions on the way to the mean do no harm: nothing wraps before the last division, and the
sum that is divided is not negative, or the number of samples divides what is left of `2 ^ 64` after
the modulus of the type. -/
structure Undisturbed (τ κ : IntType) (h : Histogram β) (n : Nat) (edge : Nat → Int) : Prop where
  nothingWraps : NothingWraps τ κ h n edge
  quotient : 0 ≤ h.meanTotal n edge ∨ τ.modulus * h.nsamples ∣ 2 ^ 64

/-- For every sequence of samples that are not none, in a histogram over samples of the type: when the
accumulator fits and the conversions do no harm, the mean lies between the limits. -/
theorem estimatedMean_mem (τ κ : IntType) {b : β} (hb : OfType τ b) (hedges : Edges b n edge)
    (samples : List (Int × Nat)) (hsamples : ∀ s ∈ samples, τ.InRange s.1)
    (hne : recorded samples ≠ []) (hrun : (recordAll samples).run (make b) = .ok () h)
    (hacc : AccumulatorFits τ h n edge) (hexact : Undisturbed τ κ h n edge) :
    MeanInRange τ κ h := by
  -- The histogram is the one that records the samples, and it says what they were.
  obtain ⟨h', hrun', hr, hbinning⟩ := (records_make hedges).recordAll_run samples
  rw [hrun] at hrun'
  cases hrun'
  have hstart : ObservedInRange τ (make b) := ⟨hb.theoreticalMax, hb.theoreticalMin⟩
  have hbin : h.binning = b := hbinning
  rw [List.nil_append] at hr
  apply (hr.meanInRange_iff hne (hbin ▸ hb) (hstart.recordAll hsamples hrun) hacc
    hexact.nothingWraps).2
  exact hexact.quotient.imp_right fun hdvd => hr.wrapsBack_of_dvd hne hdvd

end Mean

/-! ## Histograms of `int` -/

/-- The type `unsigned int`, of the counters by default -/
def unsignedInt : IntType := ⟨false, .w32⟩

/-- A range with negative numbers -/
def aroundZero : IntegerRangeBinning (limitsOf int) := ⟨-6, 2, by decide⟩

theorem ofType_aroundZero : OfType int aroundZero :=
  ⟨by decide, by decide, by decide, by decide⟩

/-- After a sample of minus five, two of one and one above the range -/
def withPositiveSum : Histogram (IntegerRangeBinning (limitsOf int)) :=
  ⟨aroundZero, 0, 1, -5, 9, 4, [0, 1, 0, 0, 0, 0, 0, 2]⟩

theorem estimatedMean_mem_withPositiveSum : MeanInRange int unsignedInt withPositiveSum :=
  estimatedMean_mem int unsignedInt ofType_aroundZero aroundZero.edges [(-5, 1), (1, 2), (9, 1)]
    (by decide) (by decide) rfl ⟨by decide +kernel, by decide +kernel⟩
    ⟨⟨by decide, by decide +kernel, by decide, by decide +kernel, by decide +kernel, by decide⟩,
      Or.inl (by decide +kernel)⟩

/-- After three samples of minus five -/
def withNegativeSum : Histogram (IntegerRangeBinning (limitsOf int)) :=
  ⟨aroundZero, 0, 0, -5, -5, 3, [0, 3, 0, 0, 0, 0, 0, 0]⟩

/-- The mean of three samples of minus five is estimated as a large positive number. -/
theorem not_meanInRange_withNegativeSum :
    ¬ ∀ (τ κ : IntType) (b : IntegerRangeBinning (limitsOf τ)) (samples : List (Int × Nat))
      (h : Histogram (IntegerRangeBinning (limitsOf τ))), OfType τ b →
      (∀ s ∈ samples, τ.InRange s.1) → recorded samples ≠ [] →
      (recordAll samples).run (make b) = .ok () h →
      AccumulatorFits τ h (b.hMax - b.hMin).toNat (fun i => b.hMin + i) → MeanInRange τ κ h := by
  intro hclaim
  obtain ⟨mean, hmean, -, hmax⟩ := hclaim int unsignedInt aroundZero [(-5, 3)] withNegativeSum
    ofType_aroundZero (by decide) (by decide) rfl ⟨by decide +kernel, by decide +kernel⟩
  have hreturned : estimatedMean int unsignedInt withNegativeSum = .ok 1431655761 := by
    decide +kernel
  rw [hreturned] at hmean
  cases hmean
  exact absurd hmax (by decide)

end Histogram

end JayBeams
