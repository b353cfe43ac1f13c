import JayBeams.Library.KeyedRecords
import JayBeams.OfflineFeedStatistics

/-!
# The book depth statistics

`book_depth_statistics` keeps one histogram of the depths that it is given, over the values from zero to
a configured maximum, and prints its quantiles as CSV. Nothing is printed for a histogram without
samples. `Recorded` says what it has after some depths, and `RowOf` what is printed then: the least and
the greatest depth are exact, and each quantile is off by one at most, unless it is beyond the maximum.
A maximum for which there can be no vector of counters raises when the statistics are made (`Usable`).
-/

set_option autoImplicit false

namespace JayBeams

open Containers Histogram Machines Machines.Machine
open CInteger.IntType (uint64)

/-- `book_depth_statistics::config` -/
structure BookDepthStatisticsConfig where
  maxBookDepth : UInt64
  deriving DecidableEq, Repr

namespace BookDepthStatisticsConfig

/-- The constructor -/
def default : BookDepthStatisticsConfig := ⟨8192⟩

/-- `validate` -/
def validate (cfg : BookDepthStatisticsConfig) : Except Failure Unit :=
  if cfg.maxBookDepth ≤ 1 then
    .error (.usage ("max_book_depth must be > 1, value=" ++ toString cfg.maxBookDepth) 1)
  else .ok ()

theorem validate_default : default.validate = .ok () := rfl

/-- A configuration that is valid, and a vector can have a counter for each depth up to its maximum. -/
structure Usable (cfg : BookDepthStatisticsConfig) : Prop where
  valid : cfg.validate = .ok ()
  size : cfg.maxBookDepth.toNat ≤ maxCounters 4

theorem usable_default : default.Usable := ⟨validate_default, by decide⟩

end BookDepthStatisticsConfig

/-- `book_depth_statistics` -/
structure BookDepthStatistics where
  bookDepth : Histogram (IntegerRangeBinning (limitsOf uint64))

namespace BookDepthStatistics

/-- The constructor -/
def make (cfg : BookDepthStatisticsConfig) : Except Failure BookDepthStatistics := do
  let binning ← IntegerRangeBinning.make (limitsOf uint64) 0 cfg.maxBookDepth.toNat
  let bookDepth ← allocate 4 binning
  return ⟨bookDepth⟩

/-- `sample` -/
def sample (bookDepth : UInt64) : EStateM Failure BookDepthStatistics Unit :=
  onPart BookDepthStatistics.bookDepth (fun t s => { s with bookDepth := t })
    (weightedSample bookDepth.toNat 1)

/-- The fields of the header -/
def csvHeader : List String :=
  ["Name", "NSamples", "minBookDepth", "p25BookDepth", "p50BookDepth", "p75BookDepth", "p90BookDepth",
    "p99BookDepth", "p999BookDepth", "p9999BookDepth", "maxBookDepth"]

/-- `print_csv_header`, without the end of the line -/
def printCsvHeader : String := CommaLines.line csvHeader

/-- `csv_rate` -/
def csvRate (histo : Histogram (IntegerRangeBinning (limitsOf uint64))) : Except Failure (List String) :=
  csvFields rateQuantiles histo

/-- `print_csv`, without the end of the line; each comma of a row without samples starts an empty
field. -/
def printCsv (name : String) (s : BookDepthStatistics) : Except Failure String :=
  if s.bookDepth.nsamples = 0 then
    return CommaLines.line ([name, "0"] ++ List.replicate 9 "")
  else do
    let fields ← csvRate s.bookDepth
    return CommaLines.line ([name, toString s.bookDepth.nsamples] ++ fields)

/-! ## What is recorded -/

section Observed

variable {b : IntegerRangeBinning (limitsOf uint64)}
  {h h' : Histogram (IntegerRangeBinning (limitsOf uint64))} {depths : List UInt64} {d : UInt64}

/-- The limits observed are depths, or those at the start when there are none. -/
structure Observed (depths : List UInt64) (h : Histogram (IntegerRangeBinning (limitsOf uint64))) :
    Prop where
  fresh : depths = [] → h.observedMin = 18446744073709551615 ∧ h.observedMax = 0
  least : depths ≠ [] → ∃ lo ∈ depths, h.observedMin = lo.toNat
  greatest : depths ≠ [] → ∃ hi ∈ depths, h.observedMax = hi.toNat

theorem observed_make (b : IntegerRangeBinning (limitsOf uint64)) : Observed [] (Histogram.make b) where
  fresh _ := ⟨rfl, rfl⟩
  least hne := absurd rfl hne
  greatest hne := absurd rfl hne

theorem observe_of_weightedSample {t : Int} {weight : Nat} (hw : weight ≠ 0) {u : Unit}
    (hrun : (weightedSample t weight).run h = .ok u h') :
    h'.observedMin = (h.observe t weight).observedMin ∧
      h'.observedMax = (h.observe t weight).observedMax := by
  rw [weightedSample_run h t hw] at hrun
  split at hrun
  · rw [addToBin, EStateM.run_bind, EStateM.run_get] at hrun
    dsimp only at hrun
    split at hrun
    · cases hrun
      exact ⟨rfl, rfl⟩
    · cases hrun
  · split at hrun
    · cases hrun
      exact ⟨rfl, rfl⟩
    · cases hrun
      exact ⟨rfl, rfl⟩

/-- One more depth is the new limit, or the limits stay. -/
theorem Observed.sample (ho : Observed depths h) {u : Unit}
    (hrun : (weightedSample d.toNat 1).run h = .ok u h') : Observed (depths ++ [d]) h' := by
  obtain ⟨hmin, hmax⟩ := observe_of_weightedSample Nat.one_ne_zero hrun
  have hlast : d ∈ depths ++ [d] := List.mem_append_right _ (List.mem_singleton.2 rfl)
  have hfits := d.toNat_lt
  simp only [observe] at hmin hmax
  refine ⟨fun hnil => absurd hnil (List.append_ne_nil_of_right_ne_nil _ (List.cons_ne_nil _ _)),
    fun _ => ?_, fun _ => ?_⟩
  · by_cases hnil : depths = []
    · -- the limit at the start is that of the type, so the first depth replaces it or is the limit
      refine ⟨d, hlast, ?_⟩
      rw [hmin, (ho.fresh hnil).1]
      split_ifs <;> omega
    · obtain ⟨lo, hlo, heq⟩ := ho.least hnil
      split_ifs at hmin
      · exact ⟨d, hlast, hmin⟩
      · exact ⟨lo, List.mem_append_left _ hlo, hmin.trans heq⟩
  · by_cases hnil : depths = []
    · refine ⟨d, hlast, ?_⟩
      rw [hmax, (ho.fresh hnil).2]
      split_ifs <;> omega
    · obtain ⟨hi, hhi, heq⟩ := ho.greatest hnil
      split_ifs at hmax
      · exact ⟨d, hlast, hmax⟩
      · exact ⟨hi, List.mem_append_left _ hhi, hmax.trans heq⟩

end Observed

/-- The statistics after some depths, with the configured maximum -/
structure Recorded (cfg : BookDepthStatisticsConfig) (depths : List UInt64) (s : BookDepthStatistics) :
    Prop where
  hMin : s.bookDepth.binning.hMin = 0
  hMax : s.bookDepth.binning.hMax = cfg.maxBookDepth.toNat
  records : Records (s.bookDepth.binning.hMax - s.bookDepth.binning.hMin).toNat
    (fun i => s.bookDepth.binning.hMin + i) (depths.map fun d => (d.toNat : Int)) s.bookDepth
  observed : Observed depths s.bookDepth

section Recorded

variable {cfg : BookDepthStatisticsConfig} {depths : List UInt64} {s s' : BookDepthStatistics}

/-- A usable configuration has a range that is not empty. -/
theorem make_returns (h : cfg.Usable) : ∃ s, make cfg = .ok s ∧ Recorded cfg [] s := by
  have hpos : (0 : Int) < cfg.maxBookDepth.toNat := by
    have hvalid := h.valid
    rw [BookDepthStatisticsConfig.validate] at hvalid
    split at hvalid
    · cases hvalid
    · next hmax =>
        have hlt : (1 : UInt64) < cfg.maxBookDepth := UInt64.not_le.1 hmax
        have hone : (1 : UInt64).toNat < cfg.maxBookDepth.toNat := UInt64.lt_iff_toNat_lt.1 hlt
        exact_mod_cast (Nat.zero_le 1).trans_lt hone
  have hbinning : IntegerRangeBinning.make (limitsOf uint64) 0 cfg.maxBookDepth.toNat =
      .ok ⟨0, cfg.maxBookDepth.toNat, hpos⟩ := dif_pos hpos
  refine ⟨⟨Histogram.make ⟨0, cfg.maxBookDepth.toNat, hpos⟩⟩, ?_, rfl, rfl,
    records_make (IntegerRangeBinning.edges _), observed_make _⟩
  rw [make, hbinning]
  simp only [bind, Except.bind, allocate_range hpos (Int.ofNat_le.2 h.size)]
  rfl

/-- A sample never raises. -/
theorem Recorded.sample_returns (h : Recorded cfg depths s) (d : UInt64) :
    ∃ s', (sample d).run s = .ok () s' ∧ Recorded cfg (depths ++ [d]) s' := by
  obtain ⟨t, hrun, hr, hbinning⟩ := h.records.weightedSample_run d.toNat 1
  refine ⟨{ s with bookDepth := t }, onPart_run_ok _ _ hrun, ?_, ?_, ?_, h.observed.sample hrun⟩
  · exact (congrArg (·.hMin) hbinning).trans h.hMin
  · exact (congrArg (·.hMax) hbinning).trans h.hMax
  · rw [List.map_append]
    show Records (t.binning.hMax - t.binning.hMin).toNat (fun i => t.binning.hMin + i) _ t
    rw [hbinning]
    exact hr

theorem Recorded.of_sample (h : Recorded cfg depths s) {d : UInt64} {u : Unit}
    (hrun : (sample d).run s = .ok u s') : Recorded cfg (depths ++ [d]) s' := by
  obtain ⟨t, ht, hrecorded⟩ := h.sample_returns d
  rw [ht] at hrun
  cases hrun
  exact hrecorded

theorem Recorded.nsamples (h : Recorded cfg depths s) : s.bookDepth.nsamples = depths.length := by
  rw [h.records.nsamples, List.length_map]

/-- The counters, of type `unsigned int`, do not overflow before there are as many depths as it has
values. -/
theorem Recorded.countersWithin (h : Recorded cfg depths s) (hfew : depths.length < 2 ^ 32) :
    s.bookDepth.CountersWithin (2 ^ 32 - 1) := by
  apply h.records.countersWithin
  · rw [List.length_map]
    omega
  · decide

end Recorded

/-! ## What is printed -/

/-- The estimate of a quantile of some depths is that of the depth with its rank, or the next value. It
is not below the maximum when this depth is not. -/
def Estimates (cfg : BookDepthStatisticsConfig) (depths : List UInt64) (greatest : UInt64) (q : Rat)
    (value : Int) : Prop :=
  ∃ x, orderStatistic (depths.map fun d => (d.toNat : Int)) (quantileRank depths.length q) = some x ∧
    (x < cfg.maxBookDepth.toNat → x ≤ value ∧ value ≤ x + 1) ∧
    (cfg.maxBookDepth.toNat ≤ x → cfg.maxBookDepth.toNat ≤ value ∧ value ≤ greatest.toNat)

/-- The row of some depths: their number, the least and the greatest one, and the quantiles between
them. -/
structure RowOf (cfg : BookDepthStatisticsConfig) (name : String) (depths : List UInt64)
    (row : String) : Prop where
  empty : depths = [] → row = CommaLines.line ([name, "0"] ++ List.replicate 9 "")
  full : depths ≠ [] → ∃ lo ∈ depths, ∃ hi ∈ depths, (∀ d ∈ depths, lo ≤ d ∧ d ≤ hi) ∧
    ∃ values : List Int, List.Forall₂ (Estimates cfg depths hi) rateQuantiles values ∧
      row = CommaLines.line ([name, toString depths.length] ++
        ((lo.toNat : Int) :: values ++ [(hi.toNat : Int)]).map toString)

section Printed

variable {cfg : BookDepthStatisticsConfig} {depths : List UInt64} {s : BookDepthStatistics}

theorem rateQuantiles_mem : ∀ q ∈ rateQuantiles, 0 ≤ q ∧ q ≤ 1 := by
  decide +kernel

/-- The quantiles of statistics with a sample can be estimated. -/
theorem Recorded.estimates (h : Recorded cfg depths s) (hne : depths ≠ []) {greatest : UInt64}
    (hgreatest : s.bookDepth.observedMax = greatest.toNat) {quantiles : List Rat}
    (hq : ∀ q ∈ quantiles, 0 ≤ q ∧ q ≤ 1) :
    ∃ values, quantiles.mapM s.bookDepth.estimatedQuantile = .ok values ∧
      List.Forall₂ (Estimates cfg depths greatest) quantiles values := by
  induction quantiles with
  | nil => exact ⟨[], rfl, .nil⟩
  | cons q quantiles ih =>
      rw [List.forall_mem_cons] at hq
      obtain ⟨values, hvalues, hall⟩ := ih hq.2
      have hnonneg : ∀ x ∈ depths.map fun d => (d.toNat : Int), 0 ≤ x := by
        intro x hx
        obtain ⟨d, -, rfl⟩ := List.mem_map.1 hx
        exact Int.natCast_nonneg _
      have hdepths : (depths.map fun d => (d.toNat : Int)) ≠ [] := by simpa using hne
      obtain ⟨estimate, x, hestimate, hx, hbelow, habove⟩ :=
        EventRateHistogram.estimatedQuantile_near h.hMin rfl h.records hdepths hnonneg hq.1.1 hq.1.2
      rw [List.length_map] at hx
      rw [h.hMax] at hbelow habove
      rw [hgreatest] at habove
      refine ⟨estimate :: values, ?_, .cons ⟨x, hx, hbelow, habove⟩ hall⟩
      rw [List.mapM_cons, hestimate, hvalues]
      rfl

/-- The row is there, with or without samples. -/
theorem Recorded.printCsv_row (h : Recorded cfg depths s) (name : String) :
    ∃ row, printCsv name s = .ok row ∧ RowOf cfg name depths row := by
  by_cases hnil : depths = []
  · refine ⟨CommaLines.line ([name, "0"] ++ List.replicate 9 ""), ?_, fun _ => rfl,
      fun hne => absurd hnil hne⟩
    rw [printCsv, if_pos (by rw [h.nsamples, hnil]; rfl)]
    rfl
  · obtain ⟨lo, hlo, hmin⟩ := h.observed.least hnil
    obtain ⟨hi, hhi, hmax⟩ := h.observed.greatest hnil
    obtain ⟨values, hvalues, hall⟩ := h.estimates hnil hmax rateQuantiles_mem
    have hlimits : ∀ d ∈ depths, lo ≤ d ∧ d ≤ hi := by
      intro d hd
      have hmem : (d.toNat : Int) ∈ depths.map fun d => (d.toNat : Int) := List.mem_map_of_mem hd
      have hle := h.records.observedMin _ hmem
      have hge := h.records.observedMax _ hmem
      rw [hmin] at hle
      rw [hmax] at hge
      exact ⟨UInt64.le_iff_toNat_le.2 (by exact_mod_cast hle),
        UInt64.le_iff_toNat_le.2 (by exact_mod_cast hge)⟩
    have hcount : ¬ s.bookDepth.nsamples = 0 := by
      rw [h.nsamples, List.length_eq_zero_iff]
      exact hnil
    refine ⟨_, ?_, fun hempty => absurd hempty hnil, fun _ => ⟨lo, hlo, hi, hhi, hlimits, values, hall,
      rfl⟩⟩
    rw [printCsv, if_neg hcount, csvRate, csvFields, summary, hvalues, hmin, hmax, h.nsamples]
    rfl

end Printed

end BookDepthStatistics

end JayBeams
