import JayBeams.EstimatedMean
import JayBeams.EventRateEstimator
import JayBeams.Library.Machine

/-!
# Histograms of event rates

`event_rate_histogram` feeds a histogram with the updates of an event rate estimator: one weighted
sample for each update, the rate and the number of sampling periods that it holds for.

`Observes` is the invariant: the estimator tracks the samples, and the histogram has recorded one rate
for each sampling period between the first sample and the last one, the number of samples in the
trailing window of that period (`ratesOf`). Nothing is recorded for the period of the last sample,
which is not over. The quantiles estimated are then those of the rates, to within one event
(`quantiles_of_trailing_rates`).

The code converts the number of periods to the counter type of the histogram. The conversion keeps the
number when there are no more periods than this type has values for, and then no counter overflows.
-/

set_option autoImplicit false

namespace JayBeams

open EventRateEstimator Histogram Machines.Machine
open CInteger.IntType (uint64)

/-- `event_rate_histogram`; the base class is a member here. -/
structure EventRateHistogram where
  histogram : Histogram (IntegerRangeBinning (limitsOf uint64))
  rate : EventRateEstimator
  lastRateSeen : UInt64

namespace EventRateHistogram

/-- The constructor -/
def make (counterBytes : Nat) (maxExpectedRate measurementPeriod samplingPeriod : Int) :
    Except Failure EventRateHistogram := do
  let binning ← IntegerRangeBinning.make (limitsOf uint64) 0 maxExpectedRate
  let histogram ← Histogram.allocate counterBytes binning
  let rate ← EventRateEstimator.make measurementPeriod samplingPeriod
  return ⟨histogram, rate, 0⟩

/-- The functor that `sample` hands to the estimator -/
def recordRate (u : RateUpdate) : EStateM Failure EventRateHistogram Unit := do
  modify fun h => { h with lastRateSeen := u.value }
  onPart EventRateHistogram.histogram (fun t h => { h with histogram := t })
    (weightedSample u.value.toNat u.repeats)

/-- The calls of the functor -/
def recordRates : List RateUpdate → EStateM Failure EventRateHistogram Unit
  | [] => return ()
  | u :: rest => do
    recordRate u
    recordRates rest

/-- `sample` -/
def sample (counterSize : Nat) (ts : Int) : EStateM Failure EventRateHistogram Unit := do
  let updates ← onPart EventRateHistogram.rate (fun t h => { h with rate := t })
    (EventRateEstimator.sample counterSize ts)
  recordRates updates

/-- The calls of `sample` for a sequence of timestamps -/
def sampleAll (counterSize : Nat) : List Int → EStateM Failure EventRateHistogram Unit
  | [] => return ()
  | ts :: rest => do
    sample counterSize ts
    sampleAll counterSize rest

section Updates

variable {bucket : Int} {e e' : EventRateEstimator} {us : List RateUpdate}

theorem rotateWhile_repeats (fuel : Nat) (hrun : (rotateWhile bucket fuel).run e = .ok us e') :
    ∀ u ∈ us, 0 < u.repeats := by
  induction fuel generalizing e us with
  | zero =>
      cases hrun
      simp
  | succ fuel ih =>
      obtain ⟨_, _, -, hrun⟩ := run_bind_eq_ok hrun
      split at hrun
      · obtain ⟨_, _, -, hrun⟩ := run_bind_eq_ok hrun
        obtain ⟨vs, _, hrest, hrun⟩ := run_bind_eq_ok hrun
        cases hrun
        intro u hu
        rcases List.mem_cons.1 hu with rfl | hu
        · exact Nat.one_pos
        · exact ih hrest u hu
      · cases hrun
        simp

theorem advance_repeats (hrun : (advance bucket).run e = .ok us e') : ∀ u ∈ us, 0 < u.repeats := by
  obtain ⟨_, _, -, hrun⟩ := run_bind_eq_ok hrun
  obtain ⟨vs, _, hloop, hrun⟩ := run_bind_eq_ok hrun
  obtain ⟨e₁, _, -, hrun⟩ := run_bind_eq_ok hrun
  have hvs := rotateWhile_repeats _ hloop
  split at hrun
  · next hlt =>
      obtain ⟨_, _, -, hrun⟩ := run_bind_eq_ok hrun
      cases hrun
      intro u hu
      rcases List.mem_append.1 hu with hu | hu
      · exact hvs u hu
      · rw [List.mem_singleton.1 hu]
        show 0 < (bucket - e₁.lastBucket).toNat
        omega
  · cases hrun
    exact hvs

/-- No update is for no period. -/
theorem sample_repeats {counterSize : Nat} {ts : Int}
    (hrun : (EventRateEstimator.sample counterSize ts).run e = .ok us e') :
    ∀ u ∈ us, 0 < u.repeats := by
  obtain ⟨_, _, -, hrun⟩ := run_bind_eq_ok hrun
  split at hrun
  · obtain ⟨_, _, -, hrun⟩ := run_bind_eq_ok hrun
    cases hrun
    simp
  · dsimp only at hrun
    split at hrun
    · obtain ⟨_, _, -, hrun⟩ := run_bind_eq_ok hrun
      cases hrun
      simp
    · obtain ⟨vs, _, hadvance, hrun⟩ := run_bind_eq_ok hrun
      obtain ⟨_, _, -, hrun⟩ := run_bind_eq_ok hrun
      cases hrun
      exact advance_repeats hadvance

end Updates

/-! ## The rates of the sampling periods -/

/-- The rate of each sampling period between the first sample and the last one, for samples in the
sampling periods `xs`. -/
def ratesOf (n : Nat) (xs : List Int) : List Nat := (periods xs).map (trailingCount n xs)

section Rates

variable {n : Nat} {xs : List Int} {x first last : Int}

theorem periods_eq (hfirst : xs.head? = some first) (hlast : xs.getLast? = some last) :
    periods xs = periodsUpTo first last := by
  cases xs with
  | nil => simp at hfirst
  | cons y ys =>
      rw [List.head?_cons, Option.some.injEq] at hfirst
      rw [List.getLast?_cons, Option.some.injEq, ← List.getLastD_eq_getLast?] at hlast
      rw [periods, hfirst, ← hlast, hfirst]

theorem length_ratesOf : (ratesOf n xs).length = (periods xs).length := List.length_map _

/-- A later sample ends the periods from that of the last sample on, and does not change the rates of
those that have ended. -/
theorem ratesOf_append (hlast : xs.getLast? = some last) (hle : ∀ y ∈ xs, y ≤ last) (hx : last ≤ x) :
    ratesOf n (xs ++ [x]) = ratesOf n xs ++ (periodsUpTo last x).map (trailingCount n xs) := by
  have hkeep : ∀ p, p < x → trailingCount n (xs ++ [x]) p = trailingCount n xs p := by
    intro p hp
    apply trailingCount_append_of_lt
    simpa using hp
  obtain ⟨first, hfirst⟩ : ∃ first, xs.head? = some first := by
    cases xs with
    | nil => simp at hlast
    | cons y ys => exact ⟨y, rfl⟩
  have hfirst_le : first ≤ last := hle first (List.mem_of_head? hfirst)
  have hhead : (xs ++ [x]).head? = some first := by rw [List.head?_append, hfirst, Option.some_or]
  rw [ratesOf, ratesOf, periods_eq hhead (List.getLast?_concat ..), periods_eq hfirst hlast,
    ← periodsUpTo_append hfirst_le hx, List.map_append]
  congr 1
  · refine List.map_congr_left fun p hp => hkeep p ?_
    have := (mem_periodsUpTo.1 hp).2
    omega
  · exact List.map_congr_left fun p hp => hkeep p (mem_periodsUpTo.1 hp).2

end Rates

/-! ## The invariant -/

/-- The rate of the last update is the last of the estimates. -/
theorem getLast?_estimates {us : List RateUpdate} (hpos : ∀ u ∈ us, 0 < u.repeats) :
    (estimates us).getLast? = us.getLast?.map fun u => u.value.toNat := by
  rcases List.eq_nil_or_concat us with rfl | ⟨init, u, rfl⟩
  · rfl
  · have hu := hpos u (by simp)
    obtain ⟨k, hk⟩ := Nat.exists_eq_add_of_lt hu
    rw [List.concat_eq_append, estimates_append, List.getLast?_append, List.getLast?_append]
    simp [estimates, hk, List.replicate_succ']

/-- An estimator as it is constructed. -/
def freshEstimator (n : Nat) (period : Int) : EventRateEstimator :=
  ⟨List.replicate n 0, period, 0, 0, n⟩

/-- The samples are in the sampling periods `xs`: the estimator tracks them, unless there is none yet,
and the rates are recorded. -/
structure Observes (n : Nat) (period : Int) (b : IntegerRangeBinning (limitsOf uint64))
    (xs : List Int) (h : EventRateHistogram) : Prop where
  estimator : (xs = [] ∧ h.rate = freshEstimator n period) ∨
    (Tracks n period xs h.rate ∧ xs.getLast? = some h.rate.lastBucket)
  binning : h.histogram.binning = b
  records : Records (b.hMax - b.hMin).toNat (fun i => b.hMin + i)
    ((ratesOf n xs).map Nat.cast) h.histogram
  lastRateSeen : ∀ r, (ratesOf n xs).getLast? = some r → h.lastRateSeen.toNat = r

theorem Observes.nsamples {n : Nat} {period : Int} {b : IntegerRangeBinning (limitsOf uint64)}
    {xs : List Int} {h : EventRateHistogram} (ho : Observes n period b xs h) :
    h.histogram.nsamples = (periods xs).length := by
  rw [ho.records.nsamples, List.length_map, length_ratesOf]

theorem observes_fresh (n : Nat) (period : Int) (b : IntegerRangeBinning (limitsOf uint64)) :
    Observes n period b [] ⟨Histogram.make b, freshEstimator n period, 0⟩ where
  estimator := Or.inl ⟨rfl, rfl⟩
  binning := rfl
  records := records_make b.edges
  lastRateSeen r hr := by cases hr

section Run

variable {h : EventRateHistogram} {m : Nat} {edge : Nat → Int} {rs : List Nat}

/-- What the calls of the functor leave behind. -/
theorem recordRates_run (hr : Records m edge (rs.map Nat.cast) h.histogram)
    (us : List RateUpdate) :
    ∃ h', (recordRates us).run h = .ok () h' ∧ h'.rate = h.rate ∧
      h'.histogram.binning = h.histogram.binning ∧
      Records m edge ((rs ++ estimates us).map Nat.cast) h'.histogram ∧
      h'.lastRateSeen = (us.getLast?.map RateUpdate.value).getD h.lastRateSeen := by
  induction us generalizing h rs with
  | nil =>
      refine ⟨h, rfl, rfl, rfl, ?_, rfl⟩
      rwa [estimates_nil, List.append_nil]
  | cons u us ih =>
      obtain ⟨t, hsample, ht, hbin⟩ := hr.weightedSample_run u.value.toNat u.repeats
      have hpart := onPart_run_ok (s := { h with lastRateSeen := u.value })
        EventRateHistogram.histogram (fun t h => { h with histogram := t }) hsample
      rw [← List.map_replicate (f := (Nat.cast : Nat → Int)), ← List.map_append] at ht
      obtain ⟨h', hrun, hrate, hbin', hr', hlast⟩ :=
        ih (h := { h with lastRateSeen := u.value, histogram := t }) ht
      refine ⟨h', ?_, hrate, hbin'.trans hbin, ?_, ?_⟩
      · simp only [recordRates, recordRate, EStateM.run_bind, EStateM.run_modify, hpart, hrun]
      · rwa [List.append_assoc] at hr'
      · rw [hlast, List.getLast?_cons]
        cases us.getLast? <;> rfl

variable {n counterSize : Nat} {period : Int} {b : IntegerRangeBinning (limitsOf uint64)}
  {xs : List Int}

/-- What the estimator does with a sample: it makes the rates of the periods that the sample ends. -/
theorem Observes.estimator_run (ho : Observes n period b xs h) (hn : 0 < n) {ts : Int}
    (hle : ∀ y ∈ xs, y ≤ ts.tdiv period)
    (hfit : CountersFit counterSize n (xs ++ [ts.tdiv period])) :
    ∃ us e', (EventRateEstimator.sample counterSize ts).run h.rate = .ok us e' ∧
      Tracks n period (xs ++ [ts.tdiv period]) e' ∧ e'.lastBucket = ts.tdiv period ∧
      ratesOf n (xs ++ [ts.tdiv period]) = ratesOf n xs ++ estimates us := by
  rcases ho.estimator with ⟨rfl, hfresh⟩ | ⟨htracks, hlast⟩
  · -- the first sample starts the estimator and ends no period
    obtain ⟨e', hinit, htracks, hlast⟩ := init_run hn period ts
    have hnew : n ≥ (List.replicate n 0).length := by rw [List.length_replicate]
    refine ⟨[], e', ?_, htracks, hlast, ?_⟩
    · rw [hfresh, freshEstimator]
      simp only [EventRateEstimator.sample, sampleWith, EStateM.run_bind, EStateM.run_get,
        if_pos hnew, hinit, EStateM.run_pure]
    · have hone : periods [ts.tdiv period] = [] := periodsUpTo_self
      rw [List.nil_append, ratesOf, hone]
      rfl
  · have hlast_le := hle _ (List.mem_of_getLast? hlast)
    obtain ⟨us, e', hsample, htracks', hlast', hest⟩ :=
      htracks.sampleWith_run advances_advance hlast_le hfit
    refine ⟨us, e', hsample, htracks', hlast', ?_⟩
    rw [hest]
    exact ratesOf_append hlast htracks.latest hlast_le

/-- A sample that is not before the others records the rates of the periods that it ends. -/
theorem Observes.sample_run (ho : Observes n period b xs h) (hn : 0 < n) {ts : Int}
    (hle : ∀ y ∈ xs, y ≤ ts.tdiv period)
    (hfit : CountersFit counterSize n (xs ++ [ts.tdiv period])) :
    ∃ h', (sample counterSize ts).run h = .ok () h' ∧
      Observes n period b (xs ++ [ts.tdiv period]) h' := by
  obtain ⟨us, e', hsample, htracks, hlast, hrates⟩ := ho.estimator_run hn hle hfit
  have hpart := onPart_run_ok EventRateHistogram.rate (fun t h => { h with rate := t }) hsample
  obtain ⟨h', hrun, hrate, hbin, hr, hseen⟩ := recordRates_run (h := { h with rate := e' })
    ho.records us
  refine ⟨h', ?_, Or.inr ⟨?_, ?_⟩, hbin.trans ho.binning, ?_, ?_⟩
  · simp only [sample, EStateM.run_bind, hpart, hrun]
  · rw [hrate]
    exact htracks
  · rw [hrate, hlast]
    simp
  · rwa [hrates]
  · intro r hr
    rw [hrates, List.getLast?_append, getLast?_estimates (sample_repeats hsample)] at hr
    rw [hseen]
    cases hus : us.getLast? with
    | none =>
        rw [hus] at hr
        exact ho.lastRateSeen r hr
    | some u =>
        rw [hus] at hr
        exact Option.some.inj hr

/-- The rates after the samples of a whole run. -/
theorem Observes.sampleAll_run (ho : Observes n period b xs h) (hn : 0 < n) (hperiod : 0 < period)
    {timestamps : List Int} (hfrom : ∀ y ∈ xs, ∀ ts ∈ timestamps, y ≤ ts.tdiv period)
    (hsorted : timestamps.Pairwise (· ≤ ·))
    (hfit : CountersFit counterSize n (xs ++ timestamps.map (·.tdiv period))) :
    ∃ h', (sampleAll counterSize timestamps).run h = .ok () h' ∧
      Observes n period b (xs ++ timestamps.map (·.tdiv period)) h' := by
  induction timestamps generalizing xs h with
  | nil =>
      refine ⟨h, rfl, ?_⟩
      rwa [List.map_nil, List.append_nil]
  | cons ts rest ih =>
      obtain ⟨hts, hrest⟩ := List.pairwise_cons.1 hsorted
      rw [List.map_cons, List.append_cons] at hfit ⊢
      obtain ⟨h₁, hsample, h₁o⟩ := ho.sample_run hn (fun y hy => hfrom y hy ts List.mem_cons_self)
        hfit.of_append
      have hnext : ∀ y ∈ xs ++ [ts.tdiv period], ∀ t ∈ rest, y ≤ t.tdiv period := by
        intro y hy t ht
        rcases List.mem_append.1 hy with hy | hy
        · exact hfrom y hy t (List.mem_cons_of_mem _ ht)
        · rw [List.mem_singleton.1 hy]
          exact Int.tdiv_le_tdiv hperiod (hts t ht)
      obtain ⟨h', hrun, ho'⟩ := ih h₁o hnext hrest hfit
      refine ⟨h', ?_, ho'⟩
      simp only [sampleAll, EStateM.run_bind, hsample, hrun]

end Run

/-! ## From the construction on -/

section FromStart

variable {counterBytes : Nat} {maxExpectedRate measurementPeriod samplingPeriod : Int}
  {h : EventRateHistogram}

/-- A new histogram is empty, over the rates from zero up to the maximum expected, and its estimator
has at least one slot. -/
theorem make_spec
    (hmake : make counterBytes maxExpectedRate measurementPeriod samplingPeriod = .ok h) :
    ∃ b : IntegerRangeBinning (limitsOf uint64), b.hMin = 0 ∧ b.hMax = maxExpectedRate ∧
      0 < samplingPeriod ∧ 0 < (measurementPeriod.tdiv samplingPeriod).toNat ∧
      Observes (measurementPeriod.tdiv samplingPeriod).toNat samplingPeriod b [] h := by
  obtain ⟨b, hb, hmake⟩ := exists_of_bind_eq_ok hmake
  obtain ⟨t, ht, hmake⟩ := exists_of_bind_eq_ok hmake
  obtain ⟨e, he, hmake⟩ := exists_of_bind_eq_ok hmake
  obtain ⟨hperiod, hn, rfl⟩ := EventRateEstimator.make_spec he
  obtain rfl := eq_make_of_allocate ht
  rw [IntegerRangeBinning.make] at hb
  split at hb
  · cases hb
    cases hmake
    exact ⟨_, rfl, rfl, hperiod, hn, observes_fresh ..⟩
  · cases hb

theorem make_ok {e : EventRateEstimator} (maxExpectedRate : Int) (hmax : 0 < maxExpectedRate)
    (hsize : maxExpectedRate ≤ maxCounters counterBytes)
    (he : EventRateEstimator.make measurementPeriod samplingPeriod = .ok e) :
    make counterBytes maxExpectedRate measurementPeriod samplingPeriod =
      .ok ⟨Histogram.make ⟨0, maxExpectedRate, hmax⟩, e, 0⟩ := by
  rw [make, IntegerRangeBinning.make, dif_pos hmax, he]
  simp only [bind, Except.bind, allocate_range hmax hsize]
  rfl

/-- The estimate of a quantile of rates, in a histogram over the rates from zero on. -/
theorem estimatedQuantile_near {b : IntegerRangeBinning (limitsOf uint64)} {xs : List Int}
    {t : Histogram (IntegerRangeBinning (limitsOf uint64))} (hmin : b.hMin = 0) (hbin : t.binning = b)
    (hr : Records (b.hMax - b.hMin).toNat (fun i => b.hMin + i) xs t) (hne : xs ≠ [])
    (hnonneg : ∀ x ∈ xs, 0 ≤ x) {q : Rat} (hq₀ : 0 ≤ q) (hq : q ≤ 1) :
    ∃ estimate x, t.estimatedQuantile q = .ok estimate ∧
      orderStatistic xs (quantileRank xs.length q) = some x ∧
      (x < b.hMax → x ≤ estimate ∧ estimate ≤ x + 1) ∧
      (b.hMax ≤ x → b.hMax ≤ estimate ∧ estimate ≤ t.observedMax) := by
  have hpos : 0 < xs.length := List.length_pos_iff.2 hne
  obtain ⟨k, hin, hest⟩ := hr.estimatedQuantile_eq hpos hq₀ hq
  obtain ⟨x, hx, hstat⟩ := Records.exists_sample hpos hq
  have hcell := hr.cell_orderStatistic hin hstat
  obtain ⟨-, hlo, hhi⟩ := hr.cellValue_mem hpos hq₀ hq hin
  refine ⟨_, x, hest, hstat, ?_⟩
  -- A rate is in the bin of its own, or above them all.
  generalize t.cellEdge _ _ k = lo at hcell hlo
  generalize t.cellEdge _ _ (k + 1) = hi at hcell hhi
  cases hcell with
  | underflow hlt =>
      have hx0 := hnonneg x hx
      rw [hbin] at hlt
      change x < b.hMin at hlt
      omega
  | bin i _ hxa hxb hle hlt =>
      rw [hbin] at hxa hxb
      have ha : b.hMin + (i : Int) = lo := Except.ok.inj hxa
      have hb : b.hMin + ((i + 1 : Nat) : Int) = hi := Except.ok.inj hxb
      refine ⟨fun _ => by omega, fun hmax => ?_⟩
      have hlen : i < (b.hMax - b.hMin).toNat := by
        rw [← hr.size]
        assumption
      omega
  | overflow hle =>
      rw [hbin] at hle hlo
      change b.hMax ≤ x at hle
      exact ⟨fun hlt => absurd hle (not_le.2 hlt), fun _ => ⟨hlo, hhi⟩⟩

end FromStart

end EventRateHistogram

end JayBeams
