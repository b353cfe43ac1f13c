import JayBeams.EventRateHistogram
import JayBeams.Library.CommaLines

/-!
# Statistics of a feed

`offline_feed_statistics` keeps three histograms of event rates, one of the times between consecutive
events and one of the processing latencies. Durations are in nanoseconds. A record of the log
evaluates its quantiles only if the log accepts records of its severity, which is the argument
`logsInfo` here; what was logged before an exception is not part of the model.

`Recorded` says what the histograms hold after any sequence of samples. A histogram of rates is empty
until a sample falls in another sampling period than the first one, and the estimate of a quantile
raises for an empty histogram. `recordAll_raises_iff` is the exact condition under which recording
samples raises, and `Recorded.logProgress_cases` has the one for the report at the end. The rows of the
CSV output check all histograms first (`Recorded.csvRow_spec`).
-/

set_option autoImplicit false

namespace JayBeams

open EventRateEstimator EventRateHistogram Histogram Machines.Machine
open CInteger.IntType (uint64)

/-- The type `std::int64_t` -/
def int64 : CInteger.IntType := ⟨true, .w64⟩

/-- `offline_feed_statistics::config` -/
structure OfflineFeedStatisticsConfig where
  maxMessagesPerSecond : Int
  maxMessagesPerMillisecond : Int
  maxMessagesPerMicrosecond : Int
  maxInterarrivalTimeNanoseconds : Int
  maxProcessingLatencyNanoseconds : Int
  reportingIntervalSeconds : Int
  deriving DecidableEq, Repr

namespace OfflineFeedStatisticsConfig

/-- The constructor -/
def default : OfflineFeedStatisticsConfig := ⟨1000000, 100000, 100000, 100000, 1000000, 600⟩

/-- One of the checks of `validate` -/
def requireMoreThanOne (name : String) (value : Int) : Except Failure Unit :=
  if value ≤ 1 then .error (.usage (s!"{name} must be > 1, value=" ++ toString value) 1) else .ok ()

/-- `validate` -/
def validate (cfg : OfflineFeedStatisticsConfig) : Except Failure Unit := do
  requireMoreThanOne "max-messages-per-second" cfg.maxMessagesPerSecond
  requireMoreThanOne "max-messages-per-millisecond" cfg.maxMessagesPerMillisecond
  requireMoreThanOne "max-messages-per-microsecond" cfg.maxMessagesPerMicrosecond
  requireMoreThanOne "max-interarrival-time-nanoseconds" cfg.maxInterarrivalTimeNanoseconds
  requireMoreThanOne "max-processing_latency-nanoseconds" cfg.maxProcessingLatencyNanoseconds
  -- the text asks for more than the check does
  if cfg.reportingIntervalSeconds < 0 then
    throw (.usage ("reporting-interval-seconds must be > 1, value=" ++
      toString cfg.reportingIntervalSeconds) 1)

end OfflineFeedStatisticsConfig

/-- `offline_feed_statistics` -/
structure OfflineFeedStatistics where
  perSecRate : EventRateHistogram
  perMsecRate : EventRateHistogram
  perUsecRate : EventRateHistogram
  interarrival : Histogram (IntegerRangeBinning (limitsOf int64))
  processingLatency : Histogram (IntegerRangeBinning (limitsOf uint64))
  reportingInterval : Int
  lastTs : Int
  lastReportTs : Int

/-- A record of the log: its name, the timestamp, the values and the number of samples. -/
structure Report where
  name : String
  ts : Int
  values : List Int
  nsamples : Nat
  deriving DecidableEq, Repr

/-! ## Summaries of a histogram -/

/-- The quantiles of `report_rate` and `csv_rate` -/
def rateQuantiles : List Rat := [1/4, 1/2, 3/4, 9/10, 99/100, 999/1000, 9999/10000]

/-- The quantiles of `report_arrival` and `csv_arrival` -/
def arrivalQuantiles : List Rat :=
  [1/10000, 1/1000, 1/100, 1/20, 1/10, 1/4, 1/2, 3/4, 9/10, 99/100]

/-- The quantiles of `report_latency` and `csv_latency` -/
def latencyQuantiles : List Rat := [1/10, 1/4, 1/2, 3/4, 9/10, 99/100, 999/1000, 9999/10000]

section Summary

variable {β : Type} [BinningStrategy β]

/-- The minimum, the quantiles and the maximum of a histogram -/
def summary (quantiles : List Rat) (histo : Histogram β) : Except Failure (List Int) := do
  let values ← quantiles.mapM histo.estimatedQuantile
  return histo.observedMin :: values ++ [histo.observedMax]

/-- A record of the log about a histogram -/
def report (logsInfo : Bool) (ts : Int) (name : String) (quantiles : List Rat) (histo : Histogram β) :
    Except Failure (List Report) :=
  if logsInfo then do
    let values ← summary quantiles histo
    return [⟨name, ts, values, histo.nsamples⟩]
  else return []

/-- `report_rate` -/
def reportRate (logsInfo : Bool) (ts : Int) (periodName : String) (histo : EventRateHistogram) :
    Except Failure (List Report) :=
  report logsInfo ts ("events/" ++ periodName) rateQuantiles histo.histogram

/-- `report_arrival` -/
def reportArrival (logsInfo : Bool) (ts : Int) (name : String) (histo : Histogram β) :
    Except Failure (List Report) :=
  report logsInfo ts name arrivalQuantiles histo

/-- `report_latency` -/
def reportLatency (logsInfo : Bool) (ts : Int) (name : String) (histo : Histogram β) :
    Except Failure (List Report) :=
  report logsInfo ts name latencyQuantiles histo

/-- The fields of a summary in a line of CSV -/
def csvFields (quantiles : List Rat) (histo : Histogram β) : Except Failure (List String) := do
  let values ← summary quantiles histo
  return values.map toString

/-- `csv_rate` -/
def csvRate (histo : EventRateHistogram) : Except Failure (List String) :=
  csvFields rateQuantiles histo.histogram

/-- `csv_arrival` -/
def csvArrival (histo : Histogram β) : Except Failure (List String) := csvFields arrivalQuantiles histo

/-- `csv_latency` -/
def csvLatency (histo : Histogram β) : Except Failure (List String) := csvFields latencyQuantiles histo

end Summary

namespace OfflineFeedStatistics

/-- The constructor -/
def make (cfg : OfflineFeedStatisticsConfig) : Except Failure OfflineFeedStatistics := do
  let perSecRate ← EventRateHistogram.make 8 (uint64.convert cfg.maxMessagesPerSecond)
    1000000000 1000000
  let perMsecRate ← EventRateHistogram.make 8 (uint64.convert cfg.maxMessagesPerMillisecond)
    1000000 1000
  let perUsecRate ← EventRateHistogram.make 8 (uint64.convert cfg.maxMessagesPerMicrosecond) 1000 1
  let arrivals ← IntegerRangeBinning.make (limitsOf int64) 0 cfg.maxInterarrivalTimeNanoseconds
  let interarrival ← allocate 4 arrivals
  let latencies ← IntegerRangeBinning.make (limitsOf uint64) 0
    (uint64.convert cfg.maxProcessingLatencyNanoseconds)
  let processingLatency ← allocate 4 latencies
  return {
    perSecRate := perSecRate
    perMsecRate := perMsecRate
    perUsecRate := perUsecRate
    interarrival := interarrival
    processingLatency := processingLatency
    reportingInterval := 1000000000 * cfg.reportingIntervalSeconds
    lastTs := 0
    lastReportTs := 0 }

/-- `log_progress` -/
def logProgress (logsInfo : Bool) (ts : Int) (s : OfflineFeedStatistics) :
    Except Failure (List Report) := do
  -- without interarrival times logging progress does not work
  if s.interarrival.nsamples = 0 then return []
  let sec ← reportRate logsInfo ts "sec " s.perSecRate
  let msec ← reportRate logsInfo ts "msec" s.perMsecRate
  let usec ← reportRate logsInfo ts "usec" s.perUsecRate
  let arrival ← reportArrival logsInfo ts "arrival    " s.interarrival
  let processing ← reportLatency logsInfo ts "processing " s.processingLatency
  return sec ++ msec ++ usec ++ arrival ++ processing

/-- `log_final_progress` -/
def logFinalProgress (logsInfo : Bool) (s : OfflineFeedStatistics) : Except Failure (List Report) :=
  logProgress logsInfo 86400000000000 s

/-- The steps of `record_sample` before it logs progress -/
def measure (ts pl : Int) : EStateM Failure OfflineFeedStatistics Unit := do
  onPart perSecRate (fun t s => { s with perSecRate := t }) (EventRateHistogram.sample 2147483648 ts)
  onPart perMsecRate (fun t s => { s with perMsecRate := t })
    (EventRateHistogram.sample 2147483648 ts)
  onPart perUsecRate (fun t s => { s with perUsecRate := t })
    (EventRateHistogram.sample 2147483648 ts)
  let s ← get
  -- the processing latencies tell whether there was a previous sample
  if s.processingLatency.nsamples > 0 then
    onPart interarrival (fun t s => { s with interarrival := t }) (weightedSample (ts - s.lastTs) 1)
  modify fun s => { s with lastTs := ts }
  onPart processingLatency (fun t s => { s with processingLatency := t })
    (weightedSample (uint64.convert pl) 1)

/-- `record_sample`; the result is what it logs. -/
def recordSample (logsInfo : Bool) (ts pl : Int) :
    EStateM Failure OfflineFeedStatistics (List Report) := do
  measure ts pl
  let s ← get
  if ts - s.lastReportTs > s.reportingInterval then
    let reports ← liftExcept (logProgress logsInfo ts s)
    modify fun s => { s with lastReportTs := ts }
    return reports
  else return []

/-- The calls of `sample` for a sequence of timestamps and latencies -/
def recordAll (logsInfo : Bool) :
    List (Int × Int) → EStateM Failure OfflineFeedStatistics (List Report)
  | [] => return []
  | i :: rest => do
    let reports ← recordSample logsInfo i.1 i.2
    let later ← recordAll logsInfo rest
    return reports ++ later

/-! ## Lines of CSV -/

/-- The fields of the header -/
def csvHeader : List String :=
  let fields := ["min", "p25", "p50", "p75", "p90", "p99", "p999", "p9999", "max"]
  let tracked := ["RatePerSec", "RatePerMSec", "RatePerUSec"]
  ["Name", "NSamples"] ++ tracked.flatMap (fun t => fields.map fun f => f ++ t) ++
    ["minArrival", "p0001Arrival", "p001Arrival", "p01Arrival", "p05Arrival", "p10Arrival",
      "p25Arrival", "p50Arrival", "p75Arrival", "p90Arrival", "p99Arrival", "maxArrival"] ++
    ["minProcessing", "p10Processing", "p25Processing", "p50Processing", "p75Processing",
      "p90Processing", "p99Processing", "p999Processing", "p9999Processing", "maxProcessing"]

/-- `print_csv_header`, without the end of the line -/
def printCsvHeader : String := CommaLines.line csvHeader

/-- The fields of a row; each comma of a row without statistics starts an empty field. -/
def csvRow (name : String) (s : OfflineFeedStatistics) : Except Failure (List String) :=
  if s.perSecRate.histogram.nsamples = 0 ∨ s.perMsecRate.histogram.nsamples = 0 ∨
      s.perUsecRate.histogram.nsamples = 0 ∨ s.interarrival.nsamples = 0 ∨
      s.processingLatency.nsamples = 0 then
    return [name, "0"] ++ List.replicate 9 "" ++ List.replicate 9 "" ++ List.replicate 9 "" ++
      List.replicate 12 "" ++ List.replicate 10 ""
  else do
    let sec ← csvRate s.perSecRate
    let msec ← csvRate s.perMsecRate
    let usec ← csvRate s.perUsecRate
    let arrival ← csvArrival s.interarrival
    let latency ← csvLatency s.processingLatency
    return [name, toString s.processingLatency.nsamples] ++ sec ++ msec ++ usec ++ arrival ++ latency

/-- `print_csv`, without the end of the line -/
def printCsv (name : String) (s : OfflineFeedStatistics) : Except Failure String := do
  let row ← csvRow name s
  return CommaLines.line row

theorem printCsv_ok {name : String} {s : OfflineFeedStatistics} {row : List String}
    (h : csvRow name s = .ok row) : printCsv name s = .ok (CommaLines.line row) := by
  rw [printCsv, h]
  rfl

/-! ## What is recorded -/

/-- The differences between consecutive timestamps -/
def differences : List Int → List Int
  | t :: u :: rest => (u - t) :: differences (u :: rest)
  | _ => []

theorem differences_append {timestamps : List Int} {last ts : Int}
    (h : timestamps.getLast? = some last) :
    differences (timestamps ++ [ts]) = differences timestamps ++ [ts - last] := by
  induction timestamps with
  | nil => cases h
  | cons t rest ih =>
      cases rest with
      | nil =>
          cases h
          rfl
      | cons u rest =>
          have hlast : (u :: rest).getLast? = some last := by
            rwa [List.getLast?_cons_cons] at h
          show (u - t) :: differences (u :: rest ++ [ts]) = (u - t) :: differences (u :: rest) ++ _
          rw [ih hlast]
          rfl

theorem length_differences (timestamps : List Int) :
    (differences timestamps).length = timestamps.length - 1 := by
  induction timestamps with
  | nil => rfl
  | cons t rest ih =>
      cases rest with
      | nil => rfl
      | cons u rest =>
          show (differences (u :: rest)).length + 1 = _
          rw [ih]
          rfl

/-- The ranges of the histograms of a validated configuration -/
structure Ranges where
  sec : IntegerRangeBinning (limitsOf uint64)
  msec : IntegerRangeBinning (limitsOf uint64)
  usec : IntegerRangeBinning (limitsOf uint64)
  interarrival : IntegerRangeBinning (limitsOf int64)
  latency : IntegerRangeBinning (limitsOf uint64)

/-- The histograms hold the samples, each a timestamp and a latency. -/
structure Recorded (r : Ranges) (samples : List (Int × Int)) (s : OfflineFeedStatistics) : Prop where
  sec : Observes 1000 1000000 r.sec (samples.map fun i => i.1.tdiv 1000000) s.perSecRate
  msec : Observes 1000 1000 r.msec (samples.map fun i => i.1.tdiv 1000) s.perMsecRate
  usec : Observes 1000 1 r.usec (samples.map fun i => i.1.tdiv 1) s.perUsecRate
  interarrival : Records (r.interarrival.hMax - r.interarrival.hMin).toNat
    (fun i => r.interarrival.hMin + i) (differences (samples.map Prod.fst)) s.interarrival
  latency : Records (r.latency.hMax - r.latency.hMin).toNat (fun i => r.latency.hMin + i)
    (samples.map fun i => uint64.convert i.2) s.processingLatency
  last : ∀ last, (samples.map Prod.fst).getLast? = some last → s.lastTs = last

/-- The counters of the estimators do not overflow. -/
structure RatesFit (samples : List (Int × Int)) : Prop where
  sec : CountersFit 2147483648 1000 (samples.map fun i => i.1.tdiv 1000000)
  msec : CountersFit 2147483648 1000 (samples.map fun i => i.1.tdiv 1000)
  usec : CountersFit 2147483648 1000 (samples.map fun i => i.1.tdiv 1)

theorem ratesFit_of_length {samples : List (Int × Int)} (h : samples.length < 2147483648) :
    RatesFit samples := by
  have hsize : samples.length < UInt64.size := h.trans (by decide)
  constructor
  · exact countersFit_of_length (by rwa [List.length_map]) (by rwa [List.length_map])
  · exact countersFit_of_length (by rwa [List.length_map]) (by rwa [List.length_map])
  · exact countersFit_of_length (by rwa [List.length_map]) (by rwa [List.length_map])

theorem RatesFit.of_append {xs ys : List (Int × Int)} (h : RatesFit (xs ++ ys)) : RatesFit xs := by
  obtain ⟨hsec, hmsec, husec⟩ := h
  rw [List.map_append] at hsec hmsec husec
  exact ⟨hsec.of_append, hmsec.of_append, husec.of_append⟩

/-- Samples that are few and early enough for the counters of the estimators, for those of the two
histograms of durations, of type `unsigned int`, and for those of the histograms of rates, of type
`std::int64_t`: these have one sample for each period before the last timestamp. -/
structure SamplesFit (samples : List (Int × Int)) : Prop extends RatesFit samples where
  few : samples.length < 2 ^ 32
  early : ∀ i ∈ samples, i.1 < 2 ^ 63

theorem samplesFit_of_length {samples : List (Int × Int)} (h : samples.length < 2147483648)
    (hearly : ∀ i ∈ samples, i.1 < 2 ^ 63) : SamplesFit samples :=
  ⟨ratesFit_of_length h, h.trans (by decide), hearly⟩

/-- Every counter is within its type. -/
structure CountersWithin (s : OfflineFeedStatistics) : Prop where
  sec : s.perSecRate.histogram.CountersWithin (2 ^ 63 - 1)
  msec : s.perMsecRate.histogram.CountersWithin (2 ^ 63 - 1)
  usec : s.perUsecRate.histogram.CountersWithin (2 ^ 63 - 1)
  interarrival : s.interarrival.CountersWithin (2 ^ 32 - 1)
  latency : s.processingLatency.CountersWithin (2 ^ 32 - 1)

section Steps

variable {r : Ranges} {samples : List (Int × Int)} {s : OfflineFeedStatistics} {ts pl : Int}

/-- A histogram of rates after one more sample. -/
theorem observes_next {h : EventRateHistogram} {period : Int} (hperiod : 0 < period)
    {b : IntegerRangeBinning (limitsOf uint64)}
    (ho : Observes 1000 period b (samples.map fun i => i.1.tdiv period) h)
    (hle : ∀ i ∈ samples, i.1 ≤ ts)
    (hfit : CountersFit 2147483648 1000 ((samples ++ [(ts, pl)]).map fun i => i.1.tdiv period)) :
    ∃ h', (EventRateHistogram.sample 2147483648 ts).run h = .ok () h' ∧
      Observes 1000 period b ((samples ++ [(ts, pl)]).map fun i => i.1.tdiv period) h' := by
  rw [List.map_append] at hfit ⊢
  refine ho.sample_run (by decide) (fun y hy => ?_) hfit
  obtain ⟨i, hi, rfl⟩ := List.mem_map.1 hy
  exact Int.tdiv_le_tdiv hperiod (hle i hi)

/-- The time since the last sample is recorded, if there was one. -/
theorem interarrival_next (hr : Recorded r samples s) (ts pl : Int) :
    ∃ t, (if s.processingLatency.nsamples > 0 then
        (weightedSample (ts - s.lastTs) 1).run s.interarrival
      else .ok () s.interarrival) = .ok () t ∧
      Records (r.interarrival.hMax - r.interarrival.hMin).toNat (fun i => r.interarrival.hMin + i)
        (differences ((samples ++ [(ts, pl)]).map Prod.fst)) t := by
  have hcount : s.processingLatency.nsamples = samples.length := by
    rw [hr.latency.nsamples, List.length_map]
  rcases List.eq_nil_or_concat samples with rfl | ⟨init, i, rfl⟩
  · rw [hcount, if_neg (by simp)]
    exact ⟨_, rfl, hr.interarrival⟩
  · rw [List.concat_eq_append] at hcount hr ⊢
    have hlast : ((init ++ [i]).map Prod.fst).getLast? = some i.1 := by simp
    obtain ⟨t, hrun, ht, -⟩ := hr.interarrival.weightedSample_run (ts - s.lastTs) 1
    rw [hcount, if_pos (by simp), hrun]
    refine ⟨t, rfl, ?_⟩
    have hmap : (init ++ [i] ++ [(ts, pl)]).map Prod.fst = (init ++ [i]).map Prod.fst ++ [ts] :=
      List.map_append
    rw [hmap, differences_append hlast, ← hr.last i.1 hlast]
    exact ht

/-- The measurements of one sample. -/
theorem measure_run (hr : Recorded r samples s) (hle : ∀ i ∈ samples, i.1 ≤ ts)
    (hfit : RatesFit (samples ++ [(ts, pl)])) :
    ∃ s', (measure ts pl).run s = .ok () s' ∧ Recorded r (samples ++ [(ts, pl)]) s' ∧
      s'.reportingInterval = s.reportingInterval ∧ s'.lastReportTs = s.lastReportTs := by
  obtain ⟨sec, hsec, hsec'⟩ := observes_next (by decide) hr.sec hle hfit.sec
  obtain ⟨msec, hmsec, hmsec'⟩ := observes_next (by decide) hr.msec hle hfit.msec
  obtain ⟨usec, husec, husec'⟩ := observes_next (by decide) hr.usec hle hfit.usec
  obtain ⟨arrival, harrival, harrival'⟩ := interarrival_next hr ts pl
  obtain ⟨latency, hlatency, hlatency', -⟩ := hr.latency.weightedSample_run (uint64.convert pl) 1
  refine ⟨{ s with
    perSecRate := sec
    perMsecRate := msec
    perUsecRate := usec
    interarrival := arrival
    processingLatency := latency
    lastTs := ts }, ?_, ⟨hsec', hmsec', husec', harrival', ?_, ?_⟩, rfl, rfl⟩
  · have hpartSec := onPart_run_ok (s := s) perSecRate (fun t s => { s with perSecRate := t }) hsec
    have hpartMsec := onPart_run_ok (s := { s with perSecRate := sec }) perMsecRate
      (fun t s => { s with perMsecRate := t }) hmsec
    have hpartUsec := onPart_run_ok (s := { s with perSecRate := sec, perMsecRate := msec })
      perUsecRate (fun t s => { s with perUsecRate := t }) husec
    have hpartLatency := onPart_run_ok (s := { s with
        perSecRate := sec, perMsecRate := msec, perUsecRate := usec, interarrival := arrival,
        lastTs := ts }) processingLatency (fun t s => { s with processingLatency := t }) hlatency
    simp only [measure, EStateM.run_bind, hpartSec, hpartMsec, hpartUsec, EStateM.run_get]
    split_ifs at harrival ⊢ with hsome
    · have hpartArrival := onPart_run_ok (s := { s with
          perSecRate := sec, perMsecRate := msec, perUsecRate := usec })
        OfflineFeedStatistics.interarrival
        (fun t s => { s with interarrival := t }) harrival
      simp only [EStateM.run_bind, hpartArrival, EStateM.run_modify, hpartLatency]
    · cases harrival
      simp only [EStateM.run_bind, EStateM.run_modify, hpartLatency]
  · rw [List.map_append]
    exact hlatency'
  · intro last hlast
    rw [List.map_append, List.map_singleton, List.getLast?_concat] at hlast
    exact Option.some.inj hlast

end Steps

/-! ## Reports -/

section Reports

/-- What `estimated_quantile` raises for an empty histogram -/
def emptyHistogram : Failure := .invalidArgument "Cannot estimate quantile for empty histogram"

variable {β : Type} [BinningStrategy β] {histo : Histogram β} {n : Nat} {edge : Nat → Int}
  {xs : List Int} {quantiles : List Rat}

/-- Quantiles that can be estimated -/
def InUnit (quantiles : List Rat) : Prop := quantiles ≠ [] ∧ ∀ q ∈ quantiles, 0 ≤ q ∧ q ≤ 1

theorem inUnit_rateQuantiles : InUnit rateQuantiles := by
  refine ⟨List.cons_ne_nil _ _, ?_⟩
  simp only [rateQuantiles, List.forall_mem_cons, List.not_mem_nil, false_implies, implies_true,
    and_true]
  norm_num

theorem inUnit_arrivalQuantiles : InUnit arrivalQuantiles := by
  refine ⟨List.cons_ne_nil _ _, ?_⟩
  simp only [arrivalQuantiles, List.forall_mem_cons, List.not_mem_nil, false_implies, implies_true,
    and_true]
  norm_num

theorem inUnit_latencyQuantiles : InUnit latencyQuantiles := by
  refine ⟨List.cons_ne_nil _ _, ?_⟩
  simp only [latencyQuantiles, List.forall_mem_cons, List.not_mem_nil, false_implies, implies_true,
    and_true]
  norm_num

/-- A histogram with samples has a summary. -/
theorem summary_of_ne_nil (hr : Records n edge xs histo) (hne : xs ≠ []) (hq : InUnit quantiles) :
    ∃ values, summary quantiles histo = .ok values ∧ values.length = quantiles.length + 2 := by
  have hpos : 0 < xs.length := List.length_pos_iff.2 hne
  have hmap : ∀ qs : List Rat, (∀ q ∈ qs, 0 ≤ q ∧ q ≤ 1) →
      ∃ values, qs.mapM histo.estimatedQuantile = .ok values ∧ values.length = qs.length := by
    intro qs hqs
    induction qs with
    | nil => exact ⟨[], rfl, rfl⟩
    | cons q qs ih =>
        obtain ⟨hq₀, hq₁⟩ := hqs q List.mem_cons_self
        obtain ⟨k, -, hest⟩ := hr.estimatedQuantile_eq hpos hq₀ hq₁
        obtain ⟨values, hvalues, hlen⟩ := ih fun q hq => hqs q (List.mem_cons_of_mem _ hq)
        refine ⟨histo.cellValue n edge xs q k :: values, ?_, congrArg (· + 1) hlen⟩
        rw [List.mapM_cons, hest, hvalues]
        rfl
  obtain ⟨values, hvalues, hlen⟩ := hmap quantiles hq.2
  refine ⟨histo.observedMin :: values ++ [histo.observedMax], ?_, ?_⟩
  · rw [summary, hvalues]
    rfl
  · rw [List.length_append, List.length_cons, hlen]
    rfl

/-- An empty histogram has none. -/
theorem summary_of_nsamples (hzero : histo.nsamples = 0) (hq : InUnit quantiles) :
    summary quantiles histo = .error emptyHistogram := by
  obtain ⟨hne, -⟩ := hq
  cases quantiles with
  | nil => exact absurd rfl hne
  | cons q qs =>
      rw [summary, List.mapM_cons, estimatedQuantile, if_pos hzero]
      rfl

end Reports

/-! ## Samples in one sampling period -/

/-- All the samples fall in one period. -/
def SamePeriod (period : Int) (samples : List (Int × Int)) : Prop :=
  ∀ i ∈ samples, ∀ j ∈ samples, i.1.tdiv period = j.1.tdiv period

section SamePeriod

variable {samples : List (Int × Int)} {period : Int}

theorem periods_eq_nil_iff (hperiod : 0 < period)
    (hsorted : samples.Pairwise fun i j => i.1 ≤ j.1) :
    periods (samples.map fun i => i.1.tdiv period) = [] ↔ SamePeriod period samples := by
  rcases List.eq_nil_or_concat samples with rfl | ⟨init, last, rfl⟩
  · exact iff_of_true rfl fun i hi => absurd hi List.not_mem_nil
  rw [List.concat_eq_append] at hsorted ⊢
  obtain ⟨first, hfirst⟩ : ∃ first, (init ++ [last]).head? = some first := by
    cases init with
    | nil => exact ⟨last, rfl⟩
    | cons i init => exact ⟨i, rfl⟩
  have hmem : first ∈ init ++ [last] := List.mem_of_head? hfirst
  have hhead : ((init ++ [last]).map fun i => i.1.tdiv period).head? = some (first.1.tdiv period) := by
    rw [List.head?_map, hfirst, Option.map_some]
  have hlast : ((init ++ [last]).map fun i => i.1.tdiv period).getLast? =
      some (last.1.tdiv period) := by
    rw [List.getLast?_map, List.getLast?_concat, Option.map_some]
  -- the first timestamp is the least, the last one the greatest
  have hle : ∀ i ∈ init ++ [last], first.1 ≤ i.1 ∧ i.1 ≤ last.1 := by
    intro i hi
    constructor
    · obtain ⟨rest, hrest⟩ := List.head?_eq_some_iff.1 hfirst
      rw [hrest] at hsorted hi
      rcases List.mem_cons.1 hi with rfl | hi
      · exact le_rfl
      · exact (List.pairwise_cons.1 hsorted).1 i hi
    · rcases List.mem_append.1 hi with hi | hi
      · exact (List.pairwise_append.1 hsorted).2.2 i hi last (List.mem_singleton.2 rfl)
      · rw [List.mem_singleton.1 hi]
  rw [periods_eq hhead hlast, periodsUpTo, List.map_eq_nil_iff, List.range_eq_nil]
  constructor
  · intro hzero i hi j hj
    have hi' := And.intro (Int.tdiv_le_tdiv hperiod (hle i hi).1) (Int.tdiv_le_tdiv hperiod (hle i hi).2)
    have hj' := And.intro (Int.tdiv_le_tdiv hperiod (hle j hj).1) (Int.tdiv_le_tdiv hperiod (hle j hj).2)
    omega
  · intro hsame
    have := hsame first hmem last (by simp)
    omega

/-- Samples of one microsecond, or of one nanosecond, are of one millisecond. -/
theorem SamePeriod.millisecond (hperiod : 0 < period) {k : Int} (hk : period * k = 1000000)
    (hnonneg : ∀ i ∈ samples, 0 ≤ i.1) (h : SamePeriod period samples) :
    SamePeriod 1000000 samples := by
  intro i hi j hj
  have hsplit : ∀ t : Int, 0 ≤ t → t.tdiv 1000000 = (t.tdiv period).tdiv k := by
    intro t ht
    rw [Int.tdiv_eq_ediv_of_nonneg ht, Int.tdiv_eq_ediv_of_nonneg ht,
      Int.tdiv_eq_ediv_of_nonneg (Int.ediv_nonneg ht hperiod.le), Int.ediv_ediv_of_nonneg hperiod.le, hk]
  rw [hsplit i.1 (hnonneg i hi), hsplit j.1 (hnonneg j hj), h i hi j hj]

end SamePeriod

/-! ## When a report raises -/

/-- Timestamps that do not decrease from midnight on. -/
structure Ordered (samples : List (Int × Int)) : Prop where
  nonneg : ∀ i ∈ samples, 0 ≤ i.1
  sorted : samples.Pairwise fun i j => i.1 ≤ j.1

/-- Two samples or more, all of one millisecond: the histograms of rates, or at least the first one, are
empty, and the one of the times between samples is not. -/
def Unreportable (samples : List (Int × Int)) : Prop :=
  2 ≤ samples.length ∧ SamePeriod 1000000 samples

section Progress

variable {r : Ranges} {samples : List (Int × Int)} {s : OfflineFeedStatistics} {ts : Int}

theorem Recorded.nsamples (hr : Recorded r samples s) :
    s.processingLatency.nsamples = samples.length ∧ s.interarrival.nsamples = samples.length - 1 := by
  constructor
  · rw [hr.latency.nsamples, List.length_map]
  · rw [hr.interarrival.nsamples, length_differences, List.length_map]

/-- There are no more periods than nanoseconds from midnight to the last timestamp. -/
theorem length_periods_le {period : Int} (hperiod : 0 < period) (ho : Ordered samples)
    (hearly : ∀ i ∈ samples, i.1 < 2 ^ 63) :
    (periods (samples.map fun i => i.1.tdiv period)).length ≤ 2 ^ 63 - 1 := by
  rcases List.eq_nil_or_concat samples with rfl | ⟨init, last, rfl⟩
  · exact Nat.zero_le _
  rw [List.concat_eq_append] at ho hearly ⊢
  obtain ⟨first, hfirst⟩ : ∃ first, (init ++ [last]).head? = some first := by
    cases init with
    | nil => exact ⟨last, rfl⟩
    | cons i init => exact ⟨i, rfl⟩
  have hhead : ((init ++ [last]).map fun i => i.1.tdiv period).head? = some (first.1.tdiv period) := by
    rw [List.head?_map, hfirst, Option.map_some]
  have hlast : ((init ++ [last]).map fun i => i.1.tdiv period).getLast? =
      some (last.1.tdiv period) := by
    rw [List.getLast?_map, List.getLast?_concat, Option.map_some]
  have hstart : 0 ≤ first.1.tdiv period :=
    Int.tdiv_nonneg (ho.nonneg first (List.mem_of_head? hfirst)) hperiod.le
  have hend : last.1.tdiv period ≤ last.1 := by
    have hnonneg := ho.nonneg last (by simp)
    rw [Int.tdiv_eq_ediv_of_nonneg hnonneg]
    exact Int.ediv_le_self period hnonneg
  have hbound := hearly last (by simp)
  rw [periods_eq hhead hlast, periodsUpTo, List.length_map, List.length_range]
  omega

/-- What is recorded of samples that fit is within the counters. -/
theorem Recorded.countersWithin (hr : Recorded r samples s) (ho : Ordered samples)
    (hfit : SamplesFit samples) : s.CountersWithin := by
  have hrates : ∀ {n : Nat} {period : Int} {b : IntegerRangeBinning (limitsOf uint64)}
      {h : EventRateHistogram}, 0 < period →
      Observes n period b (samples.map fun i => i.1.tdiv period) h →
        h.histogram.CountersWithin (2 ^ 63 - 1) := by
    intro n period b h hperiod hobs
    apply hobs.records.countersWithin _ (by decide)
    rw [List.length_map, length_ratesOf]
    exact length_periods_le hperiod ho hfit.early
  have hfew := hfit.few
  refine ⟨hrates (by decide) hr.sec, hrates (by decide) hr.msec, hrates (by decide) hr.usec, ?_, ?_⟩
  · apply hr.interarrival.countersWithin _ (by decide)
    rw [length_differences, List.length_map]
    omega
  · apply hr.latency.countersWithin _ (by decide)
    rw [List.length_map]
    omega

/-- The first histogram of rates is empty exactly when all samples are of one millisecond, and then
only can the others be. -/
theorem Recorded.rates_empty_iff (hr : Recorded r samples s) (ho : Ordered samples) :
    (s.perSecRate.histogram.nsamples = 0 ↔ SamePeriod 1000000 samples) ∧
      (s.perMsecRate.histogram.nsamples = 0 → SamePeriod 1000000 samples) ∧
      (s.perUsecRate.histogram.nsamples = 0 → SamePeriod 1000000 samples) := by
  refine ⟨?_, fun h => ?_, fun h => ?_⟩
  · rw [hr.sec.nsamples, List.length_eq_zero_iff]
    exact periods_eq_nil_iff (by decide) ho.sorted
  · rw [hr.msec.nsamples, List.length_eq_zero_iff, periods_eq_nil_iff (by decide) ho.sorted] at h
    exact h.millisecond (k := 1000) (by decide) (by decide) ho.nonneg
  · rw [hr.usec.nsamples, List.length_eq_zero_iff, periods_eq_nil_iff (by decide) ho.sorted] at h
    exact h.millisecond (k := 1000000) (by decide) (by decide) ho.nonneg

/-- The summaries of all five histograms. -/
theorem Recorded.summaries (hr : Recorded r samples s) (ho : Ordered samples)
    (hlen : 2 ≤ samples.length) (hspread : ¬ SamePeriod 1000000 samples) :
    (∃ v, summary rateQuantiles s.perSecRate.histogram = .ok v ∧ v.length = 9) ∧
      (∃ v, summary rateQuantiles s.perMsecRate.histogram = .ok v ∧ v.length = 9) ∧
      (∃ v, summary rateQuantiles s.perUsecRate.histogram = .ok v ∧ v.length = 9) ∧
      (∃ v, summary arrivalQuantiles s.interarrival = .ok v ∧ v.length = 12) ∧
      ∃ v, summary latencyQuantiles s.processingLatency = .ok v ∧ v.length = 10 := by
  obtain ⟨hsec, hmsec, husec⟩ := hr.rates_empty_iff ho
  have hne : ∀ {n edge} {xs : List Int} {h : Histogram (IntegerRangeBinning (limitsOf uint64))},
      Records n edge xs h → h.nsamples ≠ 0 → xs ≠ [] := by
    rintro n edge xs h hrecords hzero rfl
    exact hzero hrecords.nsamples
  have hdiff : differences (samples.map Prod.fst) ≠ [] := by
    intro hnil
    have := length_differences (samples.map Prod.fst)
    rw [hnil, List.length_map] at this
    simp only [List.length_nil] at this
    omega
  have hsamples : (samples.map fun i => uint64.convert i.2) ≠ [] := by
    intro hnil
    rw [List.map_eq_nil_iff.1 hnil] at hlen
    exact absurd hlen (by decide)
  exact ⟨summary_of_ne_nil hr.sec.records (hne hr.sec.records (mt hsec.1 hspread))
      inUnit_rateQuantiles,
    summary_of_ne_nil hr.msec.records (hne hr.msec.records (mt hmsec hspread)) inUnit_rateQuantiles,
    summary_of_ne_nil hr.usec.records (hne hr.usec.records (mt husec hspread)) inUnit_rateQuantiles,
    summary_of_ne_nil hr.interarrival hdiff inUnit_arrivalQuantiles,
    summary_of_ne_nil hr.latency hsamples inUnit_latencyQuantiles⟩

/-- A report raises exactly when it is logged and the samples cannot be reported. -/
theorem Recorded.logProgress_cases (hr : Recorded r samples s) (ho : Ordered samples)
    (logsInfo : Bool) (ts : Int) :
    (logsInfo = true ∧ Unreportable samples ∧ logProgress logsInfo ts s = .error emptyHistogram) ∨
      (¬ (logsInfo = true ∧ Unreportable samples) ∧
        ∃ reports, logProgress logsInfo ts s = .ok reports) := by
  have harrival := hr.nsamples.2
  by_cases hfew : s.interarrival.nsamples = 0
  · refine Or.inr ⟨fun h => ?_, [], ?_⟩
    · have := h.2.1
      omega
    · rw [logProgress, if_pos hfew]
      rfl
  · have hlen : 2 ≤ samples.length := by omega
    cases logsInfo with
    | false =>
        refine Or.inr ⟨fun h => absurd h.1 (by decide), [], ?_⟩
        rw [logProgress, if_neg hfew]
        rfl
    | true =>
        by_cases hsame : SamePeriod 1000000 samples
        · have hzero := (hr.rates_empty_iff ho).1.2 hsame
          refine Or.inl ⟨rfl, ⟨hlen, hsame⟩, ?_⟩
          rw [logProgress, if_neg hfew, reportRate, report, if_pos rfl,
            summary_of_nsamples hzero inUnit_rateQuantiles]
          rfl
        · obtain ⟨⟨v₁, h₁, -⟩, ⟨v₂, h₂, -⟩, ⟨v₃, h₃, -⟩, ⟨v₄, h₄, -⟩, v₅, h₅, -⟩ :=
            hr.summaries ho hlen hsame
          refine Or.inr ⟨fun h => hsame h.2.2, ?_⟩
          simp only [logProgress, if_neg hfew, reportRate, reportArrival, reportLatency, report,
            if_true, h₁, h₂, h₃, h₄, h₅]
          exact ⟨_, rfl⟩

end Progress

/-! ## When a sample raises -/

/-- The timestamp of the last report while the samples are all of the millisecond of the first one, if
none of them raised: the first sample reports nothing, but counts as a report when it is past the
reporting interval. -/
def firstReport (interval first : Int) : Int := if first > interval then first else 0

/-- The samples until now were recorded, and the log accepts reports. -/
structure Logging (r : Ranges) (interval : Int) (samples : List (Int × Int))
    (s : OfflineFeedStatistics) : Prop where
  recorded : Recorded r samples s
  reporting : s.reportingInterval = interval
  start : samples = [] → s.lastReportTs = 0
  report : ∀ first rest, samples = first :: rest → SamePeriod 1000000 samples →
    s.lastReportTs = firstReport interval first.1

/-- Some sample is later than the first one in its millisecond, and the reporting interval is zero or
ends with the first sample. -/
def TooSoon (interval : Int) (samples : List (Int × Int)) : Prop :=
  ∃ first rest, samples = first :: rest ∧
    (∃ i ∈ rest, first.1 < i.1 ∧ i.1.tdiv 1000000 = first.1.tdiv 1000000) ∧
    (interval = 0 ∨ first.1 = interval)

section Sample

variable {r : Ranges} {interval : Int} {samples : List (Int × Int)} {s : OfflineFeedStatistics}
  {i first : Int × Int} {rest : List (Int × Int)}

/-- In the millisecond of the first sample a report is due exactly when the sample is later than the
first one and the interval is zero or ends with the first one. -/
theorem report_due_iff {first ts : Int} (k : Int) (hk : interval = 1000000000 * k) (hpos : 0 ≤ k)
    (hfirst : 0 ≤ first) (hle : first ≤ ts) (hsame : ts.tdiv 1000000 = first.tdiv 1000000) :
    ts - firstReport interval first > interval ↔ first < ts ∧ (interval = 0 ∨ first = interval) := by
  rw [Int.tdiv_eq_ediv_of_nonneg hfirst, Int.tdiv_eq_ediv_of_nonneg (hfirst.trans hle)] at hsame
  rw [firstReport]
  split_ifs with hpast
  · omega
  · omega

theorem Ordered.of_append {xs ys : List (Int × Int)} (ho : Ordered (xs ++ ys)) : Ordered xs :=
  ⟨fun i hi => ho.nonneg i (List.mem_append_left _ hi), (List.pairwise_append.1 ho.sorted).1⟩

theorem Ordered.le_last (ho : Ordered (samples ++ [i])) : ∀ j ∈ samples, j.1 ≤ i.1 := fun j hj =>
  (List.pairwise_append.1 ho.sorted).2.2 j hj i (List.mem_singleton.2 rfl)

theorem TooSoon.append {xs : List (Int × Int)} (h : TooSoon interval xs) (ys : List (Int × Int)) :
    TooSoon interval (xs ++ ys) := by
  obtain ⟨first, rest, rfl, ⟨i, hi, hlater⟩, hdue⟩ := h
  exact ⟨first, rest ++ ys, rfl, ⟨i, List.mem_append_left _ hi, hlater⟩, hdue⟩

theorem samePeriod_of_append {xs ys : List (Int × Int)} {period : Int}
    (h : SamePeriod period (xs ++ ys)) : SamePeriod period xs := fun i hi j hj =>
  h i (List.mem_append_left _ hi) j (List.mem_append_left _ hj)

/-- Samples between the first and one of its millisecond are of that millisecond too. -/
theorem Ordered.samePeriod (ho : Ordered (first :: rest ++ [i]))
    (hsame : i.1.tdiv 1000000 = first.1.tdiv 1000000) :
    SamePeriod 1000000 (first :: rest ++ [i]) := by
  have hall : ∀ j ∈ first :: rest ++ [i], j.1.tdiv 1000000 = first.1.tdiv 1000000 := by
    intro j hj
    have hlo : first.1 ≤ j.1 := by
      rcases List.mem_cons.1 hj with rfl | hj
      · exact le_rfl
      · exact (List.pairwise_cons.1 ho.sorted).1 j hj
    have hhi : j.1 ≤ i.1 := by
      rcases List.mem_append.1 hj with hj | hj
      · exact ho.le_last j hj
      · rw [List.mem_singleton.1 hj]
    have hlo' := Int.tdiv_le_tdiv (c := 1000000) (by decide) hlo
    have hhi' := Int.tdiv_le_tdiv (c := 1000000) (by decide) hhi
    omega
  intro j hj k hk
  rw [hall j hj, hall k hk]

/-- A sample that comes too soon, after samples that did not. -/
theorem Logging.tooSoon_iff (hl : Logging r interval samples s) (ho : Ordered (samples ++ [i]))
    (k : Int) (hk : interval = 1000000000 * k) (hpos : 0 ≤ k) (hnot : ¬ TooSoon interval samples) :
    TooSoon interval (samples ++ [i]) ↔
      i.1 - s.lastReportTs > interval ∧ Unreportable (samples ++ [i]) := by
  cases samples with
  | nil =>
      refine iff_of_false ?_ fun h => absurd h.2.1 (by simp)
      rintro ⟨first, rest, hcons, ⟨j, hj, -⟩, -⟩
      obtain ⟨-, rfl⟩ := List.cons.inj hcons
      cases hj
  | cons first rest =>
      have hfirst := ho.nonneg first List.mem_cons_self
      have hle := ho.le_last first List.mem_cons_self
      constructor
      · rintro ⟨first', rest', hcons, ⟨j, hj, hlt, hsame⟩, hdue⟩
        obtain ⟨rfl, rfl⟩ := List.cons.inj hcons
        rcases List.mem_append.1 hj with hj | hj
        · exact absurd ⟨_, _, rfl, ⟨j, hj, hlt, hsame⟩, hdue⟩ hnot
        · obtain rfl := List.mem_singleton.1 hj
          have hall := ho.samePeriod hsame
          rw [hl.report first rest rfl (samePeriod_of_append hall)]
          exact ⟨(report_due_iff k hk hpos hfirst hle hsame).2 ⟨hlt, hdue⟩, by simp, hall⟩
      · rintro ⟨hdue, -, hall⟩
        have hsame := hall i (by simp) first (by simp)
        rw [hl.report first rest rfl (samePeriod_of_append hall),
          report_due_iff k hk hpos hfirst hle hsame] at hdue
        exact ⟨first, rest ++ [i], rfl, ⟨i, by simp, hdue.1, hsame⟩, hdue.2⟩

/-- A sample either raises because it comes too soon, or is recorded. -/
theorem Logging.recordSample_run (hl : Logging r interval samples s) (ho : Ordered (samples ++ [i]))
    (hfit : RatesFit (samples ++ [i])) (k : Int) (hk : interval = 1000000000 * k) (hpos : 0 ≤ k)
    (hnot : ¬ TooSoon interval samples) :
    (TooSoon interval (samples ++ [i]) ∧
        ∃ s', (recordSample true i.1 i.2).run s = .error emptyHistogram s') ∨
      (¬ TooSoon interval (samples ++ [i]) ∧ ∃ reports s',
        (recordSample true i.1 i.2).run s = .ok reports s' ∧
          Logging r interval (samples ++ [i]) s') := by
  obtain ⟨s₁, hmeasure, hr₁, hinterval, hreport⟩ := measure_run hl.recorded ho.le_last hfit
  rw [hl.tooSoon_iff ho k hk hpos hnot]
  by_cases hdue : i.1 - s.lastReportTs > interval
  · have hdue' : i.1 - s₁.lastReportTs > s₁.reportingInterval := by
      rwa [hreport, hinterval, hl.reporting]
    rcases hr₁.logProgress_cases ho true i.1 with ⟨-, hun, hlog⟩ | ⟨hok, reports, hlog⟩
    · refine Or.inl ⟨⟨hdue, hun⟩, s₁, ?_⟩
      simp only [recordSample, EStateM.run_bind, hmeasure, EStateM.run_get, if_pos hdue', hlog]
      rfl
    · have hok' : ¬ Unreportable (samples ++ [i]) := fun h => hok ⟨rfl, h⟩
      refine Or.inr ⟨fun h => hok' h.2, reports, { s₁ with lastReportTs := i.1 }, ?_, ?_⟩
      · simp only [recordSample, EStateM.run_bind, hmeasure, EStateM.run_get, if_pos hdue',
          liftExcept_run_ok hlog]
        rfl
      · refine ⟨⟨hr₁.sec, hr₁.msec, hr₁.usec, hr₁.interarrival, hr₁.latency, hr₁.last⟩,
          hinterval.trans hl.reporting, by simp, fun first rest hcons hall => ?_⟩
        -- A report is due without an exception only at the first sample.
        cases samples with
        | cons first' rest' => exact absurd ⟨by simp, hall⟩ hok'
        | nil =>
            obtain ⟨rfl, -⟩ := List.cons.inj hcons
            rw [hl.start rfl, Int.sub_zero] at hdue
            exact (if_pos hdue).symm
  · have hdue' : ¬ i.1 - s₁.lastReportTs > s₁.reportingInterval := by
      rwa [hreport, hinterval, hl.reporting]
    refine Or.inr ⟨fun h => hdue h.1, [], s₁, ?_, hr₁, hinterval.trans hl.reporting, by simp,
      fun first rest hcons hall => ?_⟩
    · simp only [recordSample, EStateM.run_bind, hmeasure, EStateM.run_get, if_neg hdue']
      rfl
    · rw [hreport]
      cases samples with
      | cons first' rest' =>
          obtain ⟨rfl, -⟩ := List.cons.inj hcons
          exact hl.report _ _ rfl (samePeriod_of_append hall)
      | nil =>
          obtain ⟨rfl, -⟩ := List.cons.inj hcons
          rw [hl.start rfl, Int.sub_zero] at hdue
          rw [hl.start rfl]
          exact (if_neg hdue).symm

/-- A whole run of samples. -/
theorem Logging.recordAll_run (hl : Logging r interval samples s) (later : List (Int × Int))
    (ho : Ordered (samples ++ later)) (hfit : RatesFit (samples ++ later)) (k : Int)
    (hk : interval = 1000000000 * k) (hpos : 0 ≤ k) (hnot : ¬ TooSoon interval samples) :
    (TooSoon interval (samples ++ later) ∧
        ∃ s', (recordAll true later).run s = .error emptyHistogram s') ∨
      (¬ TooSoon interval (samples ++ later) ∧ ∃ reports s',
        (recordAll true later).run s = .ok reports s' ∧ Recorded r (samples ++ later) s') := by
  induction later generalizing samples s with
  | nil =>
      rw [List.append_nil] at ho ⊢
      exact Or.inr ⟨hnot, [], s, rfl, hl.recorded⟩
  | cons i later ih =>
      rw [List.append_cons] at ho hfit ⊢
      rcases hl.recordSample_run ho.of_append hfit.of_append k hk hpos hnot with
        ⟨hsoon, s', hrun⟩ | ⟨hok, reports, s', hrun, hl'⟩
      · refine Or.inl ⟨hsoon.append later, s', ?_⟩
        simp only [recordAll, EStateM.run_bind, hrun]
      · rcases ih hl' ho hfit hok with ⟨hsoon, s'', hlater⟩ | ⟨hend, reports', s'', hlater, hr⟩
        · refine Or.inl ⟨hsoon, s'', ?_⟩
          simp only [recordAll, EStateM.run_bind, hrun, hlater]
        · refine Or.inr ⟨hend, reports ++ reports', s'', ?_, hr⟩
          simp only [recordAll, EStateM.run_bind, hrun, hlater]
          rfl

/-- Without a log that accepts the reports, recording a sample never raises. -/
theorem Recorded.recordSample_run (hr : Recorded r samples s) (ho : Ordered (samples ++ [i]))
    (hfit : RatesFit (samples ++ [i])) :
    ∃ reports s', (recordSample false i.1 i.2).run s = .ok reports s' ∧
      Recorded r (samples ++ [i]) s' := by
  obtain ⟨s₁, hmeasure, hr₁, -, -⟩ := measure_run hr ho.le_last hfit
  by_cases hdue : i.1 - s₁.lastReportTs > s₁.reportingInterval
  · rcases hr₁.logProgress_cases ho false i.1 with ⟨hlogs, -⟩ | ⟨-, reports, hlog⟩
    · cases hlogs
    · refine ⟨reports, { s₁ with lastReportTs := i.1 }, ?_,
        hr₁.sec, hr₁.msec, hr₁.usec, hr₁.interarrival, hr₁.latency, hr₁.last⟩
      simp only [recordSample, EStateM.run_bind, hmeasure, EStateM.run_get, if_pos hdue,
        liftExcept_run_ok hlog]
      rfl
  · refine ⟨[], s₁, ?_, hr₁⟩
    simp only [recordSample, EStateM.run_bind, hmeasure, EStateM.run_get, if_neg hdue]
    rfl

theorem Recorded.recordAll_run (hr : Recorded r samples s) (later : List (Int × Int))
    (ho : Ordered (samples ++ later)) (hfit : RatesFit (samples ++ later)) :
    ∃ reports s', (recordAll false later).run s = .ok reports s' ∧
      Recorded r (samples ++ later) s' := by
  induction later generalizing samples s with
  | nil =>
      rw [List.append_nil]
      exact ⟨[], s, rfl, hr⟩
  | cons i later ih =>
      rw [List.append_cons] at ho hfit ⊢
      obtain ⟨reports, s', hrun, hr'⟩ := hr.recordSample_run ho.of_append hfit.of_append
      obtain ⟨reports', s'', hlater, hr''⟩ := ih hr' ho hfit
      refine ⟨reports ++ reports', s'', ?_, hr''⟩
      simp only [recordAll, EStateM.run_bind, hrun, hlater]
      rfl

end Sample

/-! ## From the construction on -/

/-- The ranges of the histograms are those of the configuration. -/
structure Ranges.Of (cfg : OfflineFeedStatisticsConfig) (r : Ranges) : Prop where
  sec : r.sec.hMin = 0 ∧ r.sec.hMax = cfg.maxMessagesPerSecond
  msec : r.msec.hMin = 0 ∧ r.msec.hMax = cfg.maxMessagesPerMillisecond
  usec : r.usec.hMin = 0 ∧ r.usec.hMax = cfg.maxMessagesPerMicrosecond
  interarrival : r.interarrival.hMin = 0 ∧ r.interarrival.hMax = cfg.maxInterarrivalTimeNanoseconds
  latency : r.latency.hMin = 0 ∧ r.latency.hMax = cfg.maxProcessingLatencyNanoseconds

/-- The members of a configuration are values of `int`, but for one of `std::int64_t`: there is a
vector with a counter for each time up to this one. -/
structure FitsTypes (cfg : OfflineFeedStatisticsConfig) : Prop where
  sec : FitsInt cfg.maxMessagesPerSecond
  msec : FitsInt cfg.maxMessagesPerMillisecond
  usec : FitsInt cfg.maxMessagesPerMicrosecond
  interarrival : cfg.maxInterarrivalTimeNanoseconds ≤ maxCounters 4
  latency : FitsInt cfg.maxProcessingLatencyNanoseconds

section FromStart

variable {cfg : OfflineFeedStatisticsConfig}

theorem requireMoreThanOne_ok {name : String} {value : Int} {u : Unit}
    (h : OfflineFeedStatisticsConfig.requireMoreThanOne name value = .ok u) : 1 < value := by
  rw [OfflineFeedStatisticsConfig.requireMoreThanOne] at h
  split_ifs at h with hle
  exact not_le.1 hle

/-- What a valid configuration promises. -/
theorem validate_ok (h : cfg.validate = .ok ()) :
    1 < cfg.maxMessagesPerSecond ∧ 1 < cfg.maxMessagesPerMillisecond ∧
      1 < cfg.maxMessagesPerMicrosecond ∧ 1 < cfg.maxInterarrivalTimeNanoseconds ∧
      1 < cfg.maxProcessingLatencyNanoseconds ∧ 0 ≤ cfg.reportingIntervalSeconds := by
  rw [OfflineFeedStatisticsConfig.validate] at h
  obtain ⟨_, hsec, h⟩ := exists_of_bind_eq_ok h
  obtain ⟨_, hmsec, h⟩ := exists_of_bind_eq_ok h
  obtain ⟨_, husec, h⟩ := exists_of_bind_eq_ok h
  obtain ⟨_, harrival, h⟩ := exists_of_bind_eq_ok h
  obtain ⟨_, hlatency, h⟩ := exists_of_bind_eq_ok h
  refine ⟨requireMoreThanOne_ok hsec, requireMoreThanOne_ok hmsec, requireMoreThanOne_ok husec,
    requireMoreThanOne_ok harrival, requireMoreThanOne_ok hlatency, ?_⟩
  by_contra hneg
  rw [if_pos (not_le.1 hneg)] at h
  cases h

theorem convert_uint64 {x : Int} (hfit : FitsInt x) (hpos : 1 < x) : uint64.convert x = x := by
  apply CInteger.IntType.convert_of_inRange
  unfold FitsInt at hfit
  change (0 : Int) ≤ x ∧ x ≤ 0 + 2 ^ 64 - 1
  omega

theorem le_maxCounters {x : Int} (hfit : FitsInt x) : x ≤ maxCounters 8 ∧ x ≤ maxCounters 4 := by
  have hlt : x < 2147483648 := hfit.2
  have height : maxCounters 8 = 1152921504606846975 := rfl
  have hfour : maxCounters 4 = 2305843009213693951 := rfl
  omega

theorem make_ok (cfg : OfflineFeedStatisticsConfig) (hcfg : cfg.validate = .ok ())
    (htypes : FitsTypes cfg) :
    ∃ r s, make cfg = .ok s ∧ Ranges.Of cfg r ∧
      Logging r (1000000000 * cfg.reportingIntervalSeconds) [] s := by
  obtain ⟨hsec, hmsec, husec, harrival, hlatency, -⟩ := validate_ok hcfg
  refine ⟨⟨⟨0, cfg.maxMessagesPerSecond, by omega⟩, ⟨0, cfg.maxMessagesPerMillisecond, by omega⟩,
    ⟨0, cfg.maxMessagesPerMicrosecond, by omega⟩, ⟨0, cfg.maxInterarrivalTimeNanoseconds, by omega⟩,
    ⟨0, cfg.maxProcessingLatencyNanoseconds, by omega⟩⟩, ?_⟩
  have hrateSec := EventRateHistogram.make_ok cfg.maxMessagesPerSecond (by omega)
    (le_maxCounters htypes.sec).1
    (show EventRateEstimator.make 1000000000 1000000 = .ok (freshEstimator 1000 1000000) from rfl)
  have hrateMsec := EventRateHistogram.make_ok cfg.maxMessagesPerMillisecond (by omega)
    (le_maxCounters htypes.msec).1
    (show EventRateEstimator.make 1000000 1000 = .ok (freshEstimator 1000 1000) from rfl)
  have hrateUsec := EventRateHistogram.make_ok cfg.maxMessagesPerMicrosecond (by omega)
    (le_maxCounters htypes.usec).1
    (show EventRateEstimator.make 1000 1 = .ok (freshEstimator 1000 1) from rfl)
  rw [make, convert_uint64 htypes.sec hsec, convert_uint64 htypes.msec hmsec,
    convert_uint64 htypes.usec husec, convert_uint64 htypes.latency hlatency, hrateSec, hrateMsec,
    hrateUsec, IntegerRangeBinning.make, dif_pos (by omega), IntegerRangeBinning.make,
    dif_pos (by omega)]
  simp only [bind, Except.bind, allocate_range _ htypes.interarrival,
    allocate_range _ (le_maxCounters htypes.latency).2]
  refine ⟨_, rfl, ⟨⟨rfl, rfl⟩, ⟨rfl, rfl⟩, ⟨rfl, rfl⟩, ⟨rfl, rfl⟩, ⟨rfl, rfl⟩⟩, ?_⟩
  refine ⟨⟨observes_fresh .., observes_fresh .., observes_fresh .., records_make ?_, records_make ?_,
    fun last hlast => (by cases hlast)⟩, rfl, fun _ => rfl, fun first rest hcons => (by cases hcons)⟩
  · exact IntegerRangeBinning.edges _
  · exact IntegerRangeBinning.edges _

/-- Recording samples whose timestamps do not decrease from midnight on raises exactly when the log
accepts reports and one of them comes too soon: later than the first sample, in its millisecond, when
the reporting interval is zero or ends with the first sample. Otherwise the histograms hold all of
them, with counters that have not overflowed. -/
theorem recordAll_raises_iff (hcfg : cfg.validate = .ok ()) (htypes : FitsTypes cfg)
    {s : OfflineFeedStatistics} (hmake : make cfg = .ok s) (samples : List (Int × Int))
    (ho : Ordered samples) (hfit : SamplesFit samples) (logsInfo : Bool) :
    (logsInfo = true ∧ TooSoon (1000000000 * cfg.reportingIntervalSeconds) samples ∧
        ∃ s', (recordAll logsInfo samples).run s = .error emptyHistogram s') ∨
      (¬ (logsInfo = true ∧ TooSoon (1000000000 * cfg.reportingIntervalSeconds) samples) ∧
        ∃ reports s', (recordAll logsInfo samples).run s = .ok reports s' ∧ s'.CountersWithin ∧
          ∃ r, Ranges.Of cfg r ∧ Recorded r samples s') := by
  obtain ⟨r, s', hmake', hof, hl⟩ := make_ok cfg hcfg htypes
  obtain rfl := Except.ok.inj (hmake.symm.trans hmake')
  cases logsInfo with
  | false =>
      obtain ⟨reports, s', hrun, hr⟩ := hl.recorded.recordAll_run samples ho hfit.toRatesFit
      exact Or.inr ⟨fun h => absurd h.1 (by decide), reports, s', hrun, hr.countersWithin ho hfit, r,
        hof, hr⟩
  | true =>
      have hnone : ¬ TooSoon (1000000000 * cfg.reportingIntervalSeconds) [] := by
        rintro ⟨first, rest, hcons, -⟩
        cases hcons
      rcases hl.recordAll_run samples ho hfit.toRatesFit _ rfl (validate_ok hcfg).2.2.2.2.2 hnone with
        ⟨hsoon, hrun⟩ | ⟨hok, reports, s', hrun, hr⟩
      · exact Or.inl ⟨rfl, hsoon, hrun⟩
      · exact Or.inr ⟨fun h => hok h.2, reports, s', hrun, hr.countersWithin ho hfit, r, hof, hr⟩

theorem fitsTypes_default : FitsTypes .default :=
  ⟨by decide, by decide, by decide, by decide, by decide⟩

/-- Two events in the millisecond that starts the second report, with the default configuration. -/
theorem recordAll_raises_iff_ten_minutes :
    ∃ s s', make .default = .ok s ∧
      (recordAll true [(600000000000, 5), (600000000001, 5)]).run s = .error emptyHistogram s' := by
  obtain ⟨r, s, hmake, -⟩ := make_ok .default rfl fitsTypes_default
  rcases recordAll_raises_iff rfl fitsTypes_default hmake [(600000000000, 5), (600000000001, 5)]
    ⟨by decide, by decide⟩ (samplesFit_of_length (by decide) (by decide)) true with
    ⟨-, -, s', hrun⟩ | ⟨hnot, -⟩
  · exact ⟨s, s', hmake, hrun⟩
  · refine absurd ⟨rfl, _, _, rfl, ⟨(600000000001, 5), ?_, ?_, ?_⟩, Or.inr rfl⟩ hnot
    · exact List.mem_singleton.2 rfl
    · decide
    · decide

/-- The histograms hold the samples that were recorded without an exception. -/
theorem recorded_of_recordAll (hcfg : cfg.validate = .ok ()) (htypes : FitsTypes cfg)
    {s s' : OfflineFeedStatistics} (hmake : make cfg = .ok s) {samples : List (Int × Int)}
    (ho : Ordered samples) (hfit : RatesFit samples) {logsInfo : Bool} {reports : List Report}
    (hrun : (recordAll logsInfo samples).run s = .ok reports s') :
    ∃ r, Ranges.Of cfg r ∧ Recorded r samples s' := by
  obtain ⟨r, s₀, hmake', hof, hl⟩ := make_ok cfg hcfg htypes
  obtain rfl := Except.ok.inj (hmake.symm.trans hmake')
  cases logsInfo with
  | false =>
      obtain ⟨reports', s'', hok, hr⟩ := hl.recorded.recordAll_run samples ho hfit
      rw [List.nil_append, hrun] at *
      cases hok
      exact ⟨r, hof, hr⟩
  | true =>
      have hnone : ¬ TooSoon (1000000000 * cfg.reportingIntervalSeconds) [] := by
        rintro ⟨first, rest, hcons, -⟩
        cases hcons
      rcases hl.recordAll_run samples ho hfit _ rfl (validate_ok hcfg).2.2.2.2.2 hnone with
        ⟨-, s'', herror⟩ | ⟨-, reports', s'', hok, hr⟩
      · rw [hrun] at herror
        cases herror
      · rw [hrun] at hok
        cases hok
        exact ⟨r, hof, hr⟩

/-- The fields of a row of the CSV output: as many as those of the header, and none with a comma but for
the name. The row counts no samples when there is one at most or they are all of one millisecond. -/
theorem Recorded.csvRow_spec {r : Ranges} {samples : List (Int × Int)} {s : OfflineFeedStatistics}
    (hr : Recorded r samples s) (ho : Ordered samples) (name : String) :
    ∃ fields, csvRow name s = .ok (name :: fields) ∧ fields.length + 1 = csvHeader.length ∧
      (∀ f ∈ fields, ',' ∉ f.toList) ∧
      ((samples.length < 2 ∨ SamePeriod 1000000 samples) → fields.head? = some "0") ∧
      (¬ (samples.length < 2 ∨ SamePeriod 1000000 samples) →
        fields.head? = some (toString samples.length)) := by
  obtain ⟨hlatency, harrival⟩ := hr.nsamples
  obtain ⟨hsec, hmsec, husec⟩ := hr.rates_empty_iff ho
  by_cases hempty : samples.length < 2 ∨ SamePeriod 1000000 samples
  · refine ⟨"0" :: List.replicate 49 "", if_pos ?_, rfl, by decide, fun _ => rfl,
      fun h => absurd hempty h⟩
    rcases hempty with hfew | hsame
    · exact Or.inr (Or.inr (Or.inr (Or.inl (by omega))))
    · exact Or.inl (hsec.2 hsame)
  · obtain ⟨hlen, hspread⟩ := not_or.1 hempty
    obtain ⟨⟨v₁, h₁, l₁⟩, ⟨v₂, h₂, l₂⟩, ⟨v₃, h₃, l₃⟩, ⟨v₄, h₄, l₄⟩, v₅, h₅, l₅⟩ :=
      hr.summaries ho (by omega) hspread
    have hfull : ¬ (s.perSecRate.histogram.nsamples = 0 ∨ s.perMsecRate.histogram.nsamples = 0 ∨
        s.perUsecRate.histogram.nsamples = 0 ∨ s.interarrival.nsamples = 0 ∨
        s.processingLatency.nsamples = 0) := by
      rintro (h | h | h | h | h)
      · exact hspread (hsec.1 h)
      · exact hspread (hmsec h)
      · exact hspread (husec h)
      · omega
      · omega
    refine ⟨toString s.processingLatency.nsamples ::
      (v₁ ++ v₂ ++ v₃ ++ v₄ ++ v₅).map toString, ?_, ?_, ?_, fun h => absurd h hempty, fun _ => ?_⟩
    · rw [csvRow, if_neg hfull]
      simp only [csvRate, csvArrival, csvLatency, csvFields, h₁, h₂, h₃, h₄, h₅, List.map_append]
      rfl
    · simp only [List.length_cons, List.length_append, List.length_map, l₁, l₂, l₃, l₄, l₅]
      rfl
    · rw [List.forall_mem_cons, List.forall_mem_map]
      exact ⟨CommaLines.notMem_repr _, fun x _ => CommaLines.notMem_toString x⟩
    · rw [hlatency]
      rfl

theorem fieldsOf_printCsvHeader :
    CommaLines.fieldsOf printCsvHeader = csvHeader.map String.toList :=
  CommaLines.fieldsOf_line (by decide) (by decide)

/-- After samples that were all recorded: the report at the end raises exactly when it is logged and
there are two samples or more, all of one millisecond. A reader of the row of the CSV output, for a name
without a comma, finds as many fields as in the header. The row counts no samples when there is one at
most or they are all of one millisecond. -/
theorem final_report_and_row (hcfg : cfg.validate = .ok ()) (htypes : FitsTypes cfg)
    {s s' : OfflineFeedStatistics} (hmake : make cfg = .ok s) (samples : List (Int × Int))
    (ho : Ordered samples) (hfit : SamplesFit samples) {logsInfo : Bool} {reports : List Report}
    (hrun : (recordAll logsInfo samples).run s = .ok reports s') :
    s'.CountersWithin ∧
      ((logFinalProgress logsInfo s' = .error emptyHistogram ∧ logsInfo = true ∧
          Unreportable samples) ∨
        ((∃ final, logFinalProgress logsInfo s' = .ok final) ∧
          ¬ (logsInfo = true ∧ Unreportable samples))) ∧
      ∀ name, ∃ row, printCsv name s' = .ok row ∧ (',' ∉ name.toList →
        (CommaLines.fieldsOf row).length = (CommaLines.fieldsOf printCsvHeader).length ∧
        ((samples.length < 2 ∨ SamePeriod 1000000 samples) →
          (CommaLines.fieldsOf row).take 2 = [name.toList, "0".toList]) ∧
        (¬ (samples.length < 2 ∨ SamePeriod 1000000 samples) →
          (CommaLines.fieldsOf row).take 2 = [name.toList, (toString samples.length).toList])) := by
  obtain ⟨r, -, hr⟩ := recorded_of_recordAll hcfg htypes hmake ho hfit.toRatesFit hrun
  refine ⟨hr.countersWithin ho hfit, ?_, fun name => ?_⟩
  · rcases hr.logProgress_cases ho logsInfo 86400000000000 with ⟨hlogs, hun, hlog⟩ | ⟨hok, final, hlog⟩
    · exact Or.inl ⟨hlog, hlogs, hun⟩
    · exact Or.inr ⟨⟨final, hlog⟩, hok⟩
  · obtain ⟨fields, hrow, hlength, hplain, hnone, hcount⟩ := hr.csvRow_spec ho name
    refine ⟨CommaLines.line (name :: fields), printCsv_ok hrow, fun hname => ?_⟩
    have hfields := CommaLines.fieldsOf_line (List.cons_ne_nil name fields)
      (List.forall_mem_cons.2 ⟨hname, hplain⟩)
    have htake : ∀ count, fields.head? = some count →
        ((name :: fields).map String.toList).take 2 = [name.toList, count.toList] := by
      intro count hhead
      obtain ⟨rest, rfl⟩ := List.head?_eq_some_iff.1 hhead
      rfl
    rw [hfields, fieldsOf_printCsvHeader, List.length_map, List.length_map]
    exact ⟨hlength, fun h => htake _ (hnone h), fun h => htake _ (hcount h)⟩

/-- Two events two milliseconds apart -/
theorem final_report_and_row_two :
    ∃ s s' row, make .default = .ok s ∧ printCsv "A" s' = .ok row ∧
      (CommaLines.fieldsOf row).take 2 = [['A'], ['2']] := by
  obtain ⟨r, s, hmake, -, hl⟩ := make_ok .default rfl fitsTypes_default
  have ho : Ordered [(0, 5), (2000000, 7)] := ⟨by decide, by decide⟩
  have hfit : SamplesFit [(0, 5), (2000000, 7)] := samplesFit_of_length (by decide) (by decide)
  obtain ⟨reports, s', hrun, -⟩ :=
    hl.recorded.recordAll_run [(0, 5), (2000000, 7)] ho hfit.toRatesFit
  obtain ⟨-, -, hrow⟩ := final_report_and_row rfl fitsTypes_default hmake _ ho hfit hrun
  obtain ⟨row, hprint, hfields⟩ := hrow "A"
  obtain ⟨-, -, hcount⟩ := hfields (by decide)
  refine ⟨s, s', row, hmake, hprint, hcount ?_⟩
  rintro (hfew | hsame)
  · exact absurd hfew (by decide)
  · exact absurd (hsame (0, 5) (by simp) (2000000, 7) (by simp)) (by decide)

end FromStart

end OfflineFeedStatistics

end JayBeams
