import JayBeams.Binning
import JayBeams.Library.OrderStatistic
import Mathlib.Algebra.Order.Floor.Semiring
import Mathlib.Tactic.FieldSimp
import Mathlib.Tactic.Linarith

/-!
# The histogram

`Histogram` counts weighted samples in the bins of a binning strategy, with one counter for the
samples below its range and one for those above. The counters of the bins are in a vector, which
raises when it cannot have that many (`allocate`). A quantile is estimated by a scan over the counters
and an interpolation in the cell where the scan stops. The doubles of the estimates are rational
numbers here, so that nothing is rounded, and counters and weights are natural numbers. While there
are no more samples than the counter type has values for, this is what the counters of the code hold
(`Records.countersWithin`): they only grow, and no weight is greater than the number of samples.

`Records` says what the counters count. The scan stops in the cell of the sample with the rank of the
quantile (`Records.estimatedQuantile_eq`), so the estimate lies between the edges of the cell that
holds this sample, and a larger quantile is not below it (`histogramLaw`).
-/

set_option autoImplicit false

namespace JayBeams

open BinningStrategy

structure Histogram (β : Type) where
  binning : β
  underflowCount : Nat
  overflowCount : Nat
  observedMin : Int
  observedMax : Int
  nsamples : Nat
  bins : List Nat

namespace Histogram

variable {β : Type} [BinningStrategy β]

/-- `nbins` -/
def nbins (b : β) : Nat := sample2bin b (histogramMax b) - sample2bin b (histogramMin b)

/-- The members as the constructor leaves them -/
def make (b : β) : Histogram β where
  binning := b
  underflowCount := 0
  overflowCount := 0
  observedMin := theoreticalMax b
  observedMax := theoreticalMin b
  nsamples := 0
  bins := List.replicate (nbins b) 0

/-- A `std::vector` has at most so many counters of this size in bytes: their addresses are within
`std::ptrdiff_t`. -/
def maxCounters (counterBytes : Nat) : Nat := 9223372036854775807 / counterBytes

/-- The constructor, for counters of this size: there is no vector of more than it can hold. -/
def allocate (counterBytes : Nat) (b : β) : Except Failure (Histogram β) :=
  if nbins b ≤ maxCounters counterBytes then .ok (make b) else .error (.external "std::vector")

theorem eq_make_of_allocate {counterBytes : Nat} {b : β} {h : Histogram β}
    (hmake : allocate counterBytes b = .ok h) : h = make b := by
  rw [allocate] at hmake
  split at hmake
  · exact (Except.ok.inj hmake).symm
  · cases hmake

/-! ## Samples -/

/-- `bins_[i] += weight` -/
def addToBin (i weight : Nat) : EStateM Failure (Histogram β) Unit := do
  let h ← get
  match h.bins[i]? with
  | some n => set { h with bins := h.bins.set i (n + weight) }
  | none => throw (.outOfRange i h.bins.length)

/-- The first steps of `weighted_sample`: the total and the limits observed -/
def observe (h : Histogram β) (t : Int) (weight : Nat) : Histogram β :=
  { h with
    nsamples := h.nsamples + weight
    observedMin := if h.observedMin > t then t else h.observedMin
    observedMax := if h.observedMax < t then t else h.observedMax }

/-- `weighted_sample` -/
def weightedSample (t : Int) (weight : Nat) : EStateM Failure (Histogram β) Unit := do
  if weight = 0 then return ()
  modify fun h => h.observe t weight
  let h ← get
  if histogramMin h.binning ≤ t ∧ t < histogramMax h.binning then
    addToBin (sample2bin h.binning t) weight
  else if t < histogramMin h.binning then
    modify fun h => { h with underflowCount := h.underflowCount + weight }
  else modify fun h => { h with overflowCount := h.overflowCount + weight }

/-- A sequence of weighted samples -/
def recordAll : List (Int × Nat) → EStateM Failure (Histogram β) Unit
  | [] => return ()
  | (t, weight) :: rest => do
    weightedSample t weight
    recordAll rest

/-! ## Quantiles -/

/-- The interpolation in a cell that holds `binSamples` samples after `cumSamples` others -/
def interpolateIn (h : Histogram β) (q : Rat) (xa xb : Int) (cumSamples binSamples : Nat) : Int :=
  let s := (binSamples : Rat) / h.nsamples
  let ya := (cumSamples : Rat) / h.nsamples
  interpolate h.binning xa xb ya s q

/-- The end of the scan: the samples above the range -/
def quantileInOverflow (h : Histogram β) (q : Rat) (cumSamples binSamples : Nat) : Int :=
  let cumSamples := cumSamples + binSamples
  let binSamples := h.overflowCount
  if binSamples ≠ 0 ∧ q < ((cumSamples + binSamples : Nat) : Rat) / h.nsamples then
    h.interpolateIn q (histogramMax h.binning) h.observedMax cumSamples binSamples
  else h.observedMax

/-- The scan of the bins from `i` on -/
def quantileInBins (h : Histogram β) (q : Rat) : List Nat → (i cumSamples binSamples : Nat) →
    Except Failure Int
  | [], _, cumSamples, binSamples => .ok (h.quantileInOverflow q cumSamples binSamples)
  | n :: rest, i, cumSamples, binSamples => do
    let cumSamples := cumSamples + binSamples
    let binSamples := n
    if binSamples ≠ 0 ∧ q ≤ ((cumSamples + binSamples : Nat) : Rat) / h.nsamples then
      let xa ← bin2sample h.binning i
      let xb ← bin2sample h.binning (i + 1)
      return h.interpolateIn q xa xb cumSamples binSamples
    else quantileInBins h q rest (i + 1) cumSamples binSamples

/-- `estimated_quantile` -/
def estimatedQuantile (h : Histogram β) (q : Rat) : Except Failure Int :=
  if h.nsamples = 0 then
    .error (.invalidArgument "Cannot estimate quantile for empty histogram")
  else if q < 0 ∨ q > 1 then
    .error (.invalidArgument "Quantile value outside 0 <= q <= 1 range")
  else
    let cumSamples := 0
    let binSamples := h.underflowCount
    if binSamples ≠ 0 ∧ q ≤ ((cumSamples + binSamples : Nat) : Rat) / h.nsamples then
      .ok (h.interpolateIn q h.observedMin (histogramMin h.binning) cumSamples binSamples)
    else h.quantileInBins q h.bins 0 cumSamples binSamples

/-! ## What the counters count -/

/-- The samples recorded, each as often as its weight says. -/
def recorded (samples : List (Int × Nat)) : List Int :=
  samples.flatMap fun s => List.replicate s.2 s.1

/-- The histogram has recorded the samples `xs` in `n` bins with these edges. -/
structure Records (n : Nat) (edge : Nat → Int) (xs : List Int) (h : Histogram β) : Prop where
  edges : Edges h.binning n edge
  nsamples : h.nsamples = xs.length
  underflow : h.underflowCount = xs.countP (· < histogramMin h.binning)
  overflow : h.overflowCount = xs.countP (histogramMax h.binning ≤ ·)
  size : h.bins.length = n
  bins : ∀ i, i < n → h.bins[i]? = some (xs.countP fun x => edge i ≤ x ∧ x < edge (i + 1))
  observedMin : ∀ x ∈ xs, h.observedMin ≤ x
  observedMax : ∀ x ∈ xs, x ≤ h.observedMax

section Records

variable {n : Nat} {edge : Nat → Int} {xs : List Int} {h : Histogram β}

theorem records_make {b : β} (hb : Edges b n edge) : Records n edge [] (make b) where
  edges := hb
  nsamples := rfl
  underflow := rfl
  overflow := rfl
  size := by rw [make, nbins, List.length_replicate, hb.size]
  bins i hi := by
    rw [make, nbins, hb.size, List.getElem?_replicate_of_lt hi]
    rfl
  observedMin x hx := absurd hx List.not_mem_nil
  observedMax x hx := absurd hx List.not_mem_nil

omit [BinningStrategy β] in
theorem addToBin_run {i m : Nat} (hi : h.bins[i]? = some m) (weight : Nat) :
    (addToBin i weight).run h = .ok () { h with bins := h.bins.set i (m + weight) } := by
  simp only [addToBin, EStateM.run_bind, EStateM.run_get, hi, EStateM.run_set]

/-- After its first steps a sample adds its weight to one counter. -/
theorem weightedSample_run (h : Histogram β) (t : Int) {weight : Nat} (hw : weight ≠ 0) :
    (weightedSample t weight).run h =
      (if histogramMin h.binning ≤ t ∧ t < histogramMax h.binning then
        addToBin (sample2bin h.binning t) weight
      else if t < histogramMin h.binning then
        modify fun h => { h with underflowCount := h.underflowCount + weight }
      else modify fun h => { h with overflowCount := h.overflowCount + weight }).run
        (h.observe t weight) := by
  simp only [weightedSample, if_neg hw, EStateM.run_bind, EStateM.run_modify, EStateM.run_get]
  rfl

/-- A counter over the samples grows by the weight of a sample that it counts. -/
theorem countP_append_replicate (p : Int → Bool) (xs : List Int) (w : Nat) (t : Int) :
    (xs ++ List.replicate w t).countP p = xs.countP p + if p t then w else 0 := by
  rw [List.countP_append, List.countP_replicate]

/-- The vector has a counter for each integer of a range from zero on. -/
theorem allocate_range {τ : IntegralType} {counterBytes : Nat} {limit : Int} (hpos : 0 < limit)
    (hsize : limit ≤ maxCounters counterBytes) :
    allocate counterBytes (⟨0, limit, hpos⟩ : IntegerRangeBinning τ) = .ok (make ⟨0, limit, hpos⟩) := by
  have hbins : nbins (⟨0, limit, hpos⟩ : IntegerRangeBinning τ) = limit.toNat :=
    (IntegerRangeBinning.edges _).size.trans (congrArg Int.toNat (sub_zero limit))
  exact if_pos (hbins.trans_le (Int.toNat_le.2 hsize))

theorem Records.range_le (hr : Records n edge xs h) :
    histogramMin h.binning ≤ histogramMax h.binning := by
  rw [← hr.edges.first, ← hr.edges.last]
  exact hr.edges.mono 0 n (Nat.zero_le n) (le_refl n)

/-- A sample in the range is counted in its bin only. -/
theorem Records.bins_set (hr : Records n edge xs h) {t : Int} (weight : Nat)
    (hmin : histogramMin h.binning ≤ t) (hmax : t < histogramMax h.binning) {i : Nat} (hi : i < n) :
    (h.bins.set (sample2bin h.binning t) (xs.countP (fun x => edge (sample2bin h.binning t) ≤ x ∧
        x < edge (sample2bin h.binning t + 1)) + weight))[i]? =
      some ((xs ++ List.replicate weight t).countP fun x => edge i ≤ x ∧ x < edge (i + 1)) := by
  -- The sample lies between the edges of one bin, the one that is incremented.
  have hiff := hr.edges.sample2bin_eq_iff hmin hmax hi
  rw [countP_append_replicate]
  by_cases heq : i = sample2bin h.binning t
  · have hin := hiff.2 heq
    rw [← heq, List.getElem?_set_self (by rw [hr.size]; exact hi), if_pos (decide_eq_true hin)]
  · have hout : ¬ (edge i ≤ t ∧ t < edge (i + 1)) := fun hin => heq (hiff.1 hin)
    rw [List.getElem?_set_ne (Ne.symm heq), hr.bins i hi, if_neg (by simpa using hout)]
    rfl

/-- A sample outside the range is counted in no bin. -/
theorem Records.bins_of_outside (hr : Records n edge xs h) {t : Int} (weight : Nat)
    (hout : ¬ (histogramMin h.binning ≤ t ∧ t < histogramMax h.binning)) {i : Nat} (hi : i < n) :
    h.bins[i]? =
      some ((xs ++ List.replicate weight t).countP fun x => edge i ≤ x ∧ x < edge (i + 1)) := by
  have hfirst : edge 0 ≤ edge i := hr.edges.mono 0 i (Nat.zero_le i) hi.le
  have hlast : edge (i + 1) ≤ edge n := hr.edges.mono (i + 1) n hi (le_refl n)
  rw [hr.edges.first] at hfirst
  rw [hr.edges.last] at hlast
  -- The edges of a bin are in the range, and the sample is not between them.
  have hbin : ¬ (edge i ≤ t ∧ t < edge (i + 1)) := by omega
  rw [hr.bins i hi, countP_append_replicate, if_neg (by simpa using hbin)]
  rfl

/-- The limits observed are limits of the new sample too. -/
theorem Records.observed (hr : Records n edge xs h) (t : Int) (weight : Nat) :
    ∀ x ∈ xs ++ List.replicate weight t,
      (h.observe t weight).observedMin ≤ x ∧ x ≤ (h.observe t weight).observedMax := by
  intro x hx
  simp only [observe]
  rcases List.mem_append.1 hx with hx | hx
  · have hmin := hr.observedMin x hx
    have hmax := hr.observedMax x hx
    split_ifs <;> omega
  · obtain rfl := List.eq_of_mem_replicate hx
    split_ifs <;> omega

theorem Records.weightedSample_run (hr : Records n edge xs h) (t : Int) (weight : Nat) :
    ∃ h', (weightedSample t weight).run h = .ok () h' ∧
      Records n edge (xs ++ List.replicate weight t) h' ∧ h'.binning = h.binning := by
  rcases Nat.eq_zero_or_pos weight with rfl | hw
  · exact ⟨h, rfl, by simpa using hr, rfl⟩
  have hlen : h.nsamples + weight = (xs ++ List.replicate weight t).length := by
    rw [List.length_append, List.length_replicate, hr.nsamples]
  have hmin := fun x hx => (hr.observed t weight x hx).1
  have hmax := fun x hx => (hr.observed t weight x hx).2
  have hrange := hr.range_le
  -- A sample changes one counter, and the other two are the same in all three cases.
  have hunder : h.underflowCount + (if t < histogramMin h.binning then weight else 0) =
      (xs ++ List.replicate weight t).countP (· < histogramMin h.binning) := by
    rw [countP_append_replicate, hr.underflow]
    simp only [decide_eq_true_eq]
  have hover : h.overflowCount + (if histogramMax h.binning ≤ t then weight else 0) =
      (xs ++ List.replicate weight t).countP (histogramMax h.binning ≤ ·) := by
    rw [countP_append_replicate, hr.overflow]
    simp only [decide_eq_true_eq]
  rw [Histogram.weightedSample_run h t hw.ne']
  by_cases hin : histogramMin h.binning ≤ t ∧ t < histogramMax h.binning
  · obtain ⟨hlo, hhi⟩ := hin
    have hslot := hr.bins _ (hr.edges.sample2bin t hlo hhi).1
    rw [if_neg (not_lt.2 hlo), Nat.add_zero] at hunder
    rw [if_neg (not_le.2 hhi), Nat.add_zero] at hover
    rw [if_pos ⟨hlo, hhi⟩, addToBin_run (h := h.observe t weight) hslot weight]
    exact ⟨_, rfl, ⟨hr.edges, hlen, hunder, hover, (List.length_set ..).trans hr.size,
      fun i hi => hr.bins_set weight hlo hhi hi, hmin, hmax⟩, rfl⟩
  · have hbins := fun i (hi : i < n) => hr.bins_of_outside weight hin hi
    rw [if_neg hin]
    by_cases hbelow : t < histogramMin h.binning
    · rw [if_pos hbelow] at hunder
      rw [if_neg (by omega), Nat.add_zero] at hover
      rw [if_pos hbelow, EStateM.run_modify]
      exact ⟨_, rfl, ⟨hr.edges, hlen, hunder, hover, hr.size, hbins, hmin, hmax⟩, rfl⟩
    · rw [if_neg hbelow, Nat.add_zero] at hunder
      rw [if_pos (by omega)] at hover
      rw [if_neg hbelow, EStateM.run_modify]
      exact ⟨_, rfl, ⟨hr.edges, hlen, hunder, hover, hr.size, hbins, hmin, hmax⟩, rfl⟩

theorem Records.recordAll_run (hr : Records n edge xs h) (samples : List (Int × Nat)) :
    ∃ h', (recordAll samples).run h = .ok () h' ∧ Records n edge (xs ++ recorded samples) h' ∧
      h'.binning = h.binning := by
  induction samples generalizing xs h with
  | nil =>
      refine ⟨h, rfl, ?_, rfl⟩
      rwa [recorded, List.flatMap_nil, List.append_nil]
  | cons s rest ih =>
      obtain ⟨h₁, hsample, hr₁, hb₁⟩ := hr.weightedSample_run s.1 s.2
      obtain ⟨h', hrun, hr', hb'⟩ := ih hr₁
      refine ⟨h', ?_, ?_, hb'.trans hb₁⟩
      · rw [recordAll, EStateM.run_bind, hsample]
        exact hrun
      · rwa [recorded, List.flatMap_cons, ← List.append_assoc]

/-! ## Cumulative counts -/

/-- The samples below an edge, and the bin above it. -/
theorem Records.countP_edge_succ (hr : Records n edge xs h) {i : Nat} (hi : i < n) :
    xs.countP (· < edge i) + xs.countP (fun x => edge i ≤ x ∧ x < edge (i + 1)) =
      xs.countP (· < edge (i + 1)) :=
  countP_lt_add_countP xs (hr.edges.mono i (i + 1) (Nat.le_succ i) hi)

/-- The samples below the last edge and those above the range are all. -/
theorem Records.countP_last (hr : Records n edge xs h) :
    xs.countP (· < edge n) + h.overflowCount = xs.length := by
  rw [hr.overflow, hr.edges.last]
  exact countP_lt_add_countP_le xs _

theorem Records.sum_take (hr : Records n edge xs h) {i : Nat} (hi : i ≤ n) :
    h.underflowCount + (h.bins.take i).sum = xs.countP (· < edge i) := by
  induction i with
  | zero => rw [List.take_zero, List.sum_nil, Nat.add_zero, hr.edges.first, hr.underflow]
  | succ i ih =>
      have hbin := hr.bins i hi
      rw [List.take_add_one, hbin, List.sum_append, ← hr.countP_edge_succ hi,
        ← ih (Nat.le_of_succ_le hi)]
      simp [Nat.add_assoc]

/-- Every sample is counted once. -/
theorem Records.nsamples_eq (hr : Records n edge xs h) :
    h.nsamples = h.underflowCount + h.overflowCount + h.bins.sum := by
  have htake := hr.sum_take (le_refl n)
  have hlast := hr.countP_last
  rw [List.take_of_length_le hr.size.le] at htake
  rw [hr.nsamples]
  omega

/-- The bins are within the greatest value of the counter type, and the other counters are of
`std::uint64_t`. -/
structure CountersWithin {β : Type} (h : Histogram β) (limit : Nat) : Prop where
  nsamples : h.nsamples < UInt64.size
  underflow : h.underflowCount < UInt64.size
  overflow : h.overflowCount < UInt64.size
  bins : ∀ c ∈ h.bins, c ≤ limit

/-- No counter is greater than the number of samples. -/
theorem Records.countersWithin (hr : Records n edge xs h) {limit : Nat} (hlen : xs.length ≤ limit)
    (hlimit : limit < UInt64.size) : h.CountersWithin limit := by
  have hsize : xs.length < UInt64.size := Nat.lt_of_le_of_lt hlen hlimit
  refine ⟨?_, ?_, ?_, fun c hc => ?_⟩
  · rwa [hr.nsamples]
  · rw [hr.underflow]
    exact Nat.lt_of_le_of_lt List.countP_le_length hsize
  · rw [hr.overflow]
    exact Nat.lt_of_le_of_lt List.countP_le_length hsize
  · obtain ⟨i, hi, rfl⟩ := List.getElem_of_mem hc
    have hbin := hr.bins i (hr.size ▸ hi)
    rw [List.getElem?_eq_getElem hi] at hbin
    rw [Option.some.inj hbin]
    exact Nat.le_trans List.countP_le_length hlen

end Records

/-! ## The cells of a scan -/

/-- The rank of the sample that a quantile asks for -/
def quantileRank (total : Nat) (q : Rat) : Nat := max 1 ⌈q * total⌉₊

/-- The edges of the cells, from the one below the range to the one above it. -/
def cellEdge (h : Histogram β) (n : Nat) (edge : Nat → Int) : Nat → Int
  | 0 => h.observedMin
  | k + 1 => if k ≤ n then edge k else h.observedMax

/-- The number of samples before a cell. -/
def cellStart (n : Nat) (edge : Nat → Int) (xs : List Int) : Nat → Nat
  | 0 => 0
  | k + 1 => if k ≤ n then xs.countP (· < edge k) else xs.length

/-- The interpolation in a cell -/
def cellValue (h : Histogram β) (n : Nat) (edge : Nat → Int) (xs : List Int) (q : Rat) (k : Nat) :
    Int :=
  h.interpolateIn q (h.cellEdge n edge k) (h.cellEdge n edge (k + 1)) (cellStart n edge xs k)
    (cellStart n edge xs (k + 1) - cellStart n edge xs k)

/-- The cell holds the sample with the rank of a quantile. -/
def InCell (n : Nat) (edge : Nat → Int) (xs : List Int) (q : Rat) (k : Nat) : Prop :=
  k ≤ n + 1 ∧ cellStart n edge xs k < quantileRank xs.length q ∧
    quantileRank xs.length q ≤ cellStart n edge xs (k + 1)

section Rank

variable {total m : Nat} {q q' : Rat}

theorem quantileRank_pos : 0 < quantileRank total q := Nat.lt_of_lt_of_le Nat.one_pos (le_max_left ..)

theorem quantileRank_le_iff (htotal : 0 < total) :
    quantileRank total q ≤ m ↔ 1 ≤ m ∧ q ≤ (m : Rat) / total := by
  have hpos : (0 : Rat) < total := by exact_mod_cast htotal
  rw [quantileRank, max_le_iff, Nat.ceil_le, le_div_iff₀ hpos]

theorem le_of_lt_quantileRank (htotal : 0 < total) (hq : 0 ≤ q) (h : m < quantileRank total q) :
    (m : Rat) / total ≤ q := by
  have hpos : (0 : Rat) < total := by exact_mod_cast htotal
  rw [div_le_iff₀ hpos]
  rcases lt_max_iff.1 h with h | h
  · obtain rfl : m = 0 := by omega
    rw [Nat.cast_zero]
    positivity
  · exact (Nat.lt_ceil.1 h).le

theorem quantileRank_mono (hq : q ≤ q') : quantileRank total q ≤ quantileRank total q' := by
  apply max_le_max (le_refl 1)
  apply Nat.ceil_le_ceil
  gcongr

theorem quantileRank_le_total (htotal : 0 < total) (hq : q ≤ 1) : quantileRank total q ≤ total := by
  have hpos : (0 : Rat) < total := by exact_mod_cast htotal
  rw [quantileRank_le_iff htotal, div_self hpos.ne']
  exact ⟨htotal, hq⟩

/-- The scan stops at a cell that is not empty and up to which there are enough samples: that is the
first one up to which the rank is reached. -/
theorem stops_iff {cum : Nat} (bin : Nat) (htotal : 0 < total) (hcum : cum < quantileRank total q) :
    (bin ≠ 0 ∧ q ≤ ((cum + bin : Nat) : Rat) / total) ↔ quantileRank total q ≤ cum + bin := by
  constructor
  · rintro ⟨hbin, hq⟩
    exact (quantileRank_le_iff htotal).2 ⟨by omega, hq⟩
  · intro hle
    exact ⟨by omega, ((quantileRank_le_iff htotal).1 hle).2⟩

end Rank

section Scan

variable {n : Nat} {edge : Nat → Int} {xs : List Int} {h : Histogram β} {q : Rat}

omit [BinningStrategy β] in
theorem cellEdge_succ {k : Nat} (hk : k ≤ n) : h.cellEdge n edge (k + 1) = edge k := if_pos hk

theorem cellStart_succ {k : Nat} (hk : k ≤ n) :
    cellStart n edge xs (k + 1) = xs.countP (· < edge k) := if_pos hk

omit [BinningStrategy β] in
theorem cellEdge_end : h.cellEdge n edge (n + 2) = h.observedMax := if_neg (by omega)

theorem cellStart_end : cellStart n edge xs (n + 2) = xs.length := if_neg (by omega)

/-- What the end of the scan returns, when the rank is beyond all bins. -/
theorem Records.quantileInOverflow_eq (hr : Records n edge xs h) (hpos : 0 < xs.length) (hq : q ≤ 1)
    {cum bin : Nat} (hcum : cum + bin = xs.countP (· < edge n))
    (hlt : cum + bin < quantileRank xs.length q) :
    InCell n edge xs q (n + 1) ∧
      h.quantileInOverflow q cum bin = h.cellValue n edge xs q (n + 1) := by
  have hlast := hr.countP_last
  have hrank := quantileRank_le_total hpos hq
  have hover : h.overflowCount ≠ 0 := by omega
  have hwidth : xs.length - xs.countP (· < edge n) = h.overflowCount := by omega
  have hall : cum + bin + h.overflowCount = xs.length := by omega
  have hlength : (0 : Rat) < xs.length := by exact_mod_cast hpos
  have hvalue : h.cellValue n edge xs q (n + 1) = h.interpolateIn q (histogramMax h.binning)
      h.observedMax (cum + bin) h.overflowCount := by
    rw [cellValue, cellEdge_succ (le_refl n), cellEdge_end, cellStart_succ (le_refl n),
      cellStart_end, hwidth, hcum, hr.edges.last]
  refine ⟨⟨le_refl _, ?_, ?_⟩, ?_⟩
  · rw [cellStart_succ (le_refl n), ← hcum]
    exact hlt
  · rwa [cellStart_end]
  · rw [hvalue]
    simp only [quantileInOverflow, hall, hr.nsamples, div_self hlength.ne']
    rcases hq.lt_or_eq with hq | rfl
    · rw [if_pos ⟨hover, hq⟩]
    · -- at the end of the cell the interpolation is its upper edge, as the source returns it
      have hne : (h.overflowCount : Rat) / xs.length ≠ 0 :=
        div_ne_zero (by exact_mod_cast hover) hlength.ne'
      have hone : ((cum + bin : Nat) : Rat) / xs.length + h.overflowCount / xs.length = 1 := by
        rw [← add_div, ← Nat.cast_add, hall, div_self hlength.ne']
      have hend := interpolation_end (histogramMax h.binning) h.observedMax
        (((cum + bin : Nat) : Rat) / xs.length) hne
      rw [hone] at hend
      rw [if_neg (fun hstop => absurd hstop.2 (lt_irrefl _)), interpolateIn, hr.edges.interpolate,
        hr.nsamples, hend]

/-- The scan of the bins from `i` on stops at the cell of the rank. -/
theorem Records.quantileInBins_eq (hr : Records n edge xs h) (hpos : 0 < xs.length) (hq : q ≤ 1)
    (rest : List Nat) {i cum bin : Nat} (hrest : h.bins.drop i = rest) (hi : i ≤ n)
    (hcum : cum + bin = xs.countP (· < edge i)) (hlt : cum + bin < quantileRank xs.length q) :
    ∃ k, InCell n edge xs q k ∧
      h.quantileInBins q rest i cum bin = .ok (h.cellValue n edge xs q k) := by
  induction rest generalizing i cum bin with
  | nil =>
      -- All bins are behind, and only the samples above the range are left.
      have hle : h.bins.length ≤ i := List.drop_eq_nil_iff.1 hrest
      obtain rfl : i = n := Nat.le_antisymm hi (hr.size ▸ hle)
      obtain ⟨hcell, hvalue⟩ := hr.quantileInOverflow_eq hpos hq hcum hlt
      exact ⟨_, hcell, congrArg Except.ok hvalue⟩
  | cons m rest ih =>
      have hlen : i < h.bins.length := by
        by_contra hge
        rw [List.drop_eq_nil_of_le (not_lt.1 hge)] at hrest
        exact List.cons_ne_nil _ _ hrest.symm
      have hin : i < n := hr.size ▸ hlen
      rw [List.drop_eq_getElem_cons hlen, List.cons.injEq] at hrest
      obtain ⟨hm, hrest⟩ := hrest
      -- The bin at hand counts the samples between its edges.
      have hbin := hr.bins i hin
      rw [List.getElem?_eq_getElem hlen, hm, Option.some.injEq] at hbin
      have hnext : cum + bin + m = xs.countP (· < edge (i + 1)) := by
        rw [← hr.countP_edge_succ hin, ← hbin, hcum]
      -- The scan stops here exactly when the rank is reached.
      have hstop := stops_iff m hpos hlt
      by_cases hrank : quantileRank xs.length q ≤ cum + bin + m
      · refine ⟨i + 1, ⟨by omega, ?_, ?_⟩, ?_⟩
        · rwa [cellStart_succ hi, ← hcum]
        · rwa [cellStart_succ hin, ← hnext]
        · have hvalue : h.cellValue n edge xs q (i + 1) =
              h.interpolateIn q (edge i) (edge (i + 1)) (cum + bin) m := by
            rw [cellValue, cellEdge_succ hi, cellEdge_succ hin, cellStart_succ hi,
              cellStart_succ hin, ← hnext, ← hcum, Nat.add_sub_cancel_left]
          rw [hvalue]
          simp only [quantileInBins, hr.nsamples]
          rw [if_pos (hstop.2 hrank), hr.edges.bin2sample i hi, hr.edges.bin2sample (i + 1) hin]
          rfl
      · obtain ⟨k, hcell, hrun⟩ := ih hrest hin hnext (not_le.1 hrank)
        refine ⟨k, hcell, ?_⟩
        simp only [quantileInBins, hr.nsamples]
        rw [if_neg (fun hs => hrank (hstop.1 hs)), hrun]

/-- The estimate of a quantile is the interpolation in the cell of its rank. -/
theorem Records.estimatedQuantile_eq (hr : Records n edge xs h) (hpos : 0 < xs.length) (hq₀ : 0 ≤ q)
    (hq : q ≤ 1) :
    ∃ k, InCell n edge xs q k ∧ h.estimatedQuantile q = .ok (h.cellValue n edge xs q k) := by
  have hne : ¬ xs.length = 0 := by omega
  -- The quantile passes the check of its range.
  have hrange : ¬ (q < 0 ∨ q > 1) := not_or.2 ⟨not_lt.2 hq₀, not_lt.2 hq⟩
  have hfirst : 0 + h.underflowCount = xs.countP (· < edge 0) := by
    rw [Nat.zero_add, hr.underflow, hr.edges.first]
  have hstop := stops_iff h.underflowCount hpos (quantileRank_pos (q := q))
  by_cases hrank : quantileRank xs.length q ≤ 0 + h.underflowCount
  · refine ⟨0, ⟨Nat.zero_le _, quantileRank_pos, ?_⟩, ?_⟩
    · rwa [cellStart_succ (Nat.zero_le n), ← hfirst]
    · have hvalue : h.cellValue n edge xs q 0 = h.interpolateIn q h.observedMin
          (histogramMin h.binning) 0 h.underflowCount := by
        rw [cellValue, cellEdge_succ (Nat.zero_le n), cellStart_succ (Nat.zero_le n), hr.edges.first,
          hr.underflow]
        rfl
      rw [hvalue]
      simp only [estimatedQuantile, hr.nsamples, if_neg hne, if_neg hrange]
      rw [if_pos (hstop.2 hrank)]
  · obtain ⟨k, hcell, hrun⟩ := hr.quantileInBins_eq hpos hq h.bins (List.drop_zero ..)
      (Nat.zero_le n) hfirst (not_le.1 hrank)
    refine ⟨k, hcell, ?_⟩
    simp only [estimatedQuantile, hr.nsamples, if_neg hne, if_neg hrange]
    rw [if_neg (fun hs => hrank (hstop.1 hs)), hrun]

end Scan

/-! ## Quantiles and order statistics -/

/-- The edges of the cell that holds a sample. -/
inductive Cell (h : Histogram β) (x : Int) : Int → Int → Prop
  | underflow : x < histogramMin h.binning → Cell h x h.observedMin (histogramMin h.binning)
  | bin (i : Nat) {xa xb : Int} : i < h.bins.length → bin2sample h.binning i = .ok xa →
      bin2sample h.binning (i + 1) = .ok xb → xa ≤ x → x < xb → Cell h x xa xb
  | overflow : histogramMax h.binning ≤ x → Cell h x (histogramMax h.binning) h.observedMax

section Cells

variable {n : Nat} {edge : Nat → Int} {xs : List Int} {h : Histogram β} {q q' : Rat} {k k' : Nat}

theorem Records.cellStart_mono (hr : Records n edge xs h) (hk : k ≤ k') :
    cellStart n edge xs k ≤ cellStart n edge xs k' := by
  cases k with
  | zero => exact Nat.zero_le _
  | succ k =>
      cases k' with
      | zero => omega
      | succ k' =>
          by_cases hend : k' ≤ n
          · rw [cellStart_succ (by omega), cellStart_succ hend]
            exact countP_lt_mono xs (hr.edges.mono k k' (by omega) hend)
          · have hall : cellStart n edge xs (k' + 1) = xs.length := if_neg hend
            rw [hall]
            by_cases hk : k ≤ n
            · rw [cellStart_succ hk]
              exact List.countP_le_length
            · exact (if_neg hk : cellStart n edge xs (k + 1) = _).le

/-- The edges between the cells increase. -/
theorem Records.cellEdge_mono (hr : Records n edge xs h) (hk : k < k') (hk' : k' ≤ n + 1) :
    h.cellEdge n edge (k + 1) ≤ h.cellEdge n edge k' := by
  cases k' with
  | zero => omega
  | succ k' =>
      rw [cellEdge_succ (by omega), cellEdge_succ (by omega)]
      exact hr.edges.mono k k' (by omega) (by omega)

/-- The sample with the rank of the quantile is in the cell of the scan. -/
theorem Records.cell_orderStatistic (hr : Records n edge xs h) (hcell : InCell n edge xs q k) {x : Int}
    (hx : orderStatistic xs (quantileRank xs.length q) = some x) :
    Cell h x (h.cellEdge n edge k) (h.cellEdge n edge (k + 1)) := by
  obtain ⟨hk, hstart, hend⟩ := hcell
  -- The sample is below an edge exactly when enough samples are.
  have hbelow := orderStatistic_lt_iff hx quantileRank_pos
  -- the edges of a bin split the samples at the rank
  have hlo : ∀ i, i ≤ n → cellStart n edge xs (i + 1) < quantileRank xs.length q → edge i ≤ x := by
    intro i hi hlt
    rw [cellStart_succ hi] at hlt
    exact not_lt.1 ((hbelow (edge i)).not.2 (not_le.2 hlt))
  have hhi : ∀ i, i ≤ n → quantileRank xs.length q ≤ cellStart n edge xs (i + 1) → x < edge i := by
    intro i hi hle
    rw [cellStart_succ hi] at hle
    exact (hbelow (edge i)).2 hle
  cases k with
  | zero =>
      rw [cellEdge_succ (Nat.zero_le n), hr.edges.first]
      exact .underflow (hr.edges.first ▸ hhi 0 (Nat.zero_le n) hend)
  | succ i =>
      rcases Nat.lt_or_ge i n with hi | hi
      · rw [cellEdge_succ hi.le, cellEdge_succ hi]
        exact .bin i (by rw [hr.size]; exact hi) (hr.edges.bin2sample i hi.le)
          (hr.edges.bin2sample (i + 1) hi) (hlo i hi.le hstart) (hhi (i + 1) hi hend)
      · obtain rfl : i = n := by omega
        rw [cellEdge_succ (le_refl i), cellEdge_end, hr.edges.last]
        exact .overflow (hr.edges.last ▸ hlo i (le_refl i) hstart)

theorem Records.exists_sample (hpos : 0 < xs.length) (hq : q ≤ 1) :
    ∃ x ∈ xs, orderStatistic xs (quantileRank xs.length q) = some x := by
  obtain ⟨x, hx⟩ := exists_orderStatistic quantileRank_pos (quantileRank_le_total hpos hq)
  exact ⟨x, orderStatistic_mem hx, hx⟩

theorem Records.cell_le (hr : Records n edge xs h) {x lo hi : Int} (hx : x ∈ xs)
    (hcell : Cell h x lo hi) : lo ≤ hi := by
  cases hcell with
  | underflow hlt => exact (hr.observedMin x hx).trans hlt.le
  | bin i _ _ _ hlo hhi => exact hlo.trans hhi.le
  | overflow hle => exact hle.trans (hr.observedMax x hx)

/-- The cell has samples, and the quantile is between the shares of the samples up to its ends. -/
theorem InCell.share (hcell : InCell n edge xs q k) (hpos : 0 < xs.length) (hq : 0 ≤ q) :
    (0 : Rat) < (cellStart n edge xs (k + 1) - cellStart n edge xs k : Nat) / xs.length ∧
      (cellStart n edge xs k : Rat) / xs.length ≤ q ∧
      q ≤ (cellStart n edge xs k : Rat) / xs.length +
        (cellStart n edge xs (k + 1) - cellStart n edge xs k : Nat) / xs.length := by
  obtain ⟨-, hstart, hend⟩ := hcell
  have hlength : (0 : Rat) < xs.length := by exact_mod_cast hpos
  have hlt : cellStart n edge xs k < cellStart n edge xs (k + 1) := Nat.lt_of_lt_of_le hstart hend
  refine ⟨?_, le_of_lt_quantileRank hpos hq hstart, ?_⟩
  · have hwidth : 0 < cellStart n edge xs (k + 1) - cellStart n edge xs k := Nat.sub_pos_of_lt hlt
    exact div_pos (by exact_mod_cast hwidth) hlength
  · rw [← add_div, ← Nat.cast_add, Nat.add_sub_cancel' hlt.le]
    exact ((quantileRank_le_iff hpos).1 hend).2

theorem Records.cellValue_eq (hr : Records n edge xs h) :
    h.cellValue n edge xs q k = histogramBinningLinearInterpolation (h.cellEdge n edge k)
      (h.cellEdge n edge (k + 1)) ((cellStart n edge xs k : Rat) / xs.length)
      ((cellStart n edge xs (k + 1) - cellStart n edge xs k : Nat) / xs.length) q := by
  rw [cellValue, interpolateIn, hr.edges.interpolate, hr.nsamples]

/-- The estimate lies between the edges of the cell. -/
theorem Records.cellValue_mem (hr : Records n edge xs h) (hpos : 0 < xs.length) (hq₀ : 0 ≤ q)
    (hq : q ≤ 1) (hcell : InCell n edge xs q k) :
    h.cellEdge n edge k ≤ h.cellEdge n edge (k + 1) ∧
      h.cellEdge n edge k ≤ h.cellValue n edge xs q k ∧
      h.cellValue n edge xs q k ≤ h.cellEdge n edge (k + 1) := by
  obtain ⟨x, hx, hstat⟩ := Records.exists_sample hpos hq
  have hle := hr.cell_le hx (hr.cell_orderStatistic hcell hstat)
  obtain ⟨hwidth, hlo, hhi⟩ := hcell.share hpos hq₀
  rw [hr.cellValue_eq]
  exact ⟨hle, interpolation_mem hle hwidth hlo hhi⟩

/-- A larger quantile does not have a smaller estimate. -/
theorem Records.cellValue_mono (hr : Records n edge xs h) (hpos : 0 < xs.length) (hq₀ : 0 ≤ q)
    (hqq : q ≤ q') (hq : q' ≤ 1) (hcell : InCell n edge xs q k) (hcell' : InCell n edge xs q' k') :
    h.cellValue n edge xs q k ≤ h.cellValue n edge xs q' k' := by
  obtain ⟨hle, -, hhi⟩ := hr.cellValue_mem hpos hq₀ (hqq.trans hq) hcell
  obtain ⟨-, hlo, -⟩ := hr.cellValue_mem hpos (hq₀.trans hqq) hq hcell'
  rcases lt_trichotomy k k' with hlt | rfl | hgt
  · calc h.cellValue n edge xs q k ≤ h.cellEdge n edge (k + 1) := hhi
      _ ≤ h.cellEdge n edge k' := hr.cellEdge_mono hlt hcell'.1
      _ ≤ h.cellValue n edge xs q' k' := hlo
  · rw [hr.cellValue_eq, hr.cellValue_eq]
    exact interpolation_mono hle (hcell.share hpos hq₀).1 hqq
  · -- the later cell starts after the rank of the larger quantile
    have hrank : quantileRank xs.length q ≤ quantileRank xs.length q' := quantileRank_mono hqq
    have hstart : cellStart n edge xs (k' + 1) ≤ cellStart n edge xs k := hr.cellStart_mono hgt
    have hend := hcell'.2.2
    have hbegin := hcell.2.1
    omega

end Cells

/-- What the histogram over a binning object does with every sequence of weighted samples: recording
them uses bins that exist only and counts each once; there is no estimate without samples; otherwise
the estimate of every quantile is between the edges of the cell with the sample of its rank, and does
not fall as the quantile grows. -/
def HistogramLaw (b : β) : Prop :=
  ∀ samples : List (Int × Nat), ∃ h, (recordAll samples).run (make b) = .ok () h ∧
    h.nsamples = (recorded samples).length ∧
    h.nsamples = h.underflowCount + h.overflowCount + h.bins.sum ∧
    (recorded samples = [] → ∀ q, h.estimatedQuantile q =
      .error (.invalidArgument "Cannot estimate quantile for empty histogram")) ∧
    (recorded samples ≠ [] → ∃ estimate : Rat → Int, ∀ q, 0 ≤ q → q ≤ 1 →
      h.estimatedQuantile q = .ok (estimate q) ∧
      (∃ x lo hi, orderStatistic (recorded samples) (quantileRank h.nsamples q) = some x ∧
        Cell h x lo hi ∧ lo ≤ estimate q ∧ estimate q ≤ hi) ∧
      ∀ q', q ≤ q' → q' ≤ 1 → estimate q ≤ estimate q')

theorem histogramLaw_of_lawful [LawfulBinning β] (b : β) : HistogramLaw b := by
  intro samples
  obtain ⟨n, edge, hedges⟩ := LawfulBinning.exists_edges b
  obtain ⟨h, hrun, hr, -⟩ := (records_make hedges).recordAll_run samples
  rw [List.nil_append] at hr
  refine ⟨h, hrun, hr.nsamples, hr.nsamples_eq, fun hnil q => ?_, fun hne => ?_⟩
  · rw [estimatedQuantile, if_pos (by rw [hr.nsamples, hnil]; rfl)]
  · have hpos : 0 < (recorded samples).length := List.length_pos_iff.2 hne
    have hcells : ∀ q : Rat, ∃ k, 0 ≤ q → q ≤ 1 → InCell n edge (recorded samples) q k ∧
        h.estimatedQuantile q = .ok (h.cellValue n edge (recorded samples) q k) := by
      intro q
      by_cases hq : 0 ≤ q ∧ q ≤ 1
      · obtain ⟨k, hk⟩ := hr.estimatedQuantile_eq hpos hq.1 hq.2
        exact ⟨k, fun _ _ => hk⟩
      · exact ⟨0, fun hq₀ hq₁ => absurd ⟨hq₀, hq₁⟩ hq⟩
    -- Each quantile has its own cell, and one function gives the estimates of all of them.
    choose cell hcell using hcells
    refine ⟨fun q => h.cellValue n edge (recorded samples) q (cell q), fun q hq₀ hq₁ => ?_⟩
    obtain ⟨hin, hest⟩ := hcell q hq₀ hq₁
    obtain ⟨x, -, hx⟩ := Records.exists_sample hpos hq₁
    refine ⟨hest, ⟨x, _, _, hr.nsamples ▸ hx, hr.cell_orderStatistic hin hx,
      (hr.cellValue_mem hpos hq₀ hq₁ hin).2⟩, fun q' hqq hq' => ?_⟩
    exact hr.cellValue_mono hpos hq₀ hqq hq' hin (hcell q' (hq₀.trans hqq) hq').1

/-- Both strategies for integral samples obey the law. -/
theorem histogramLaw (τ : IntegralType) :
    (∀ b : IntegerRangeBinning τ, HistogramLaw b) ∧ ∀ b : ExplicitCutsBinning τ, HistogramLaw b :=
  ⟨histogramLaw_of_lawful, histogramLaw_of_lawful⟩

end Histogram

end JayBeams
