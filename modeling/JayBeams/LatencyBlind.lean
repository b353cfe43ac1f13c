import JayBeams.Library.Simulation
import JayBeams.OfflineFeedStatistics

/-!
# Statistics up to latencies

The processing latencies of a program are the only thing in its statistics that depends on when it ran.
Statistics that differ in the latencies alone (`SameCounts`) stay so when the same timestamps are sampled
with any latencies (`recordSample_simulates`): an exception is raised by both or by none. Their rows of
CSV differ in the ten fields of the latencies alone (`SameCounts.printCsv`).
-/

set_option autoImplicit false

namespace JayBeams

open Machines Machines.Machine Histogram

/-- Computations on related parts of related states -/
theorem onPart_simulates {σ τ μ ν α β κ : Type} {kind : Failure → κ} {R : σ → τ → Prop}
    {P : μ → ν → Prop} {V : α → β → Prop} {part : σ → μ} {part' : τ → ν} {update : μ → σ → σ}
    {update' : ν → τ → τ} {act : EStateM Failure μ α} {act' : EStateM Failure ν β}
    (hact : Simulates kind P V act act') (hpart : ∀ s t, R s t → P (part s) (part' t))
    (hupdate : ∀ s t x y, R s t → P x y → R (update x s) (update' y t)) :
    Simulates kind R V (onPart part update act) (onPart part' update' act') := by
  constructor
  intro s t hst
  have hends := hact.ends _ _ (hpart s t hst)
  cases hx : act.run (part s) with
  | ok a x =>
      cases hy : act'.run (part' t) with
      | ok b y =>
          rw [hx, hy] at hends
          rw [onPart_run_ok part update hx, onPart_run_ok part' update' hy]
          exact ⟨hends.1, hupdate s t x y hst hends.2⟩
      | error e y =>
          rw [hx, hy] at hends
          exact hends.elim
  | error e x =>
      cases hy : act'.run (part' t) with
      | ok b y =>
          rw [hx, hy] at hends
          exact hends.elim
      | error e' y =>
          rw [hx, hy] at hends
          rw [onPart_run_error part update hx, onPart_run_error part' update' hy]
          exact ⟨hends.1, hupdate s t x y hst hends.2⟩

/-! ## Histograms with equally many samples -/

section Alike

variable {β : Type} [BinningStrategy β] {h h' : Histogram β}

/-- Two histograms hold equally many samples. -/
def Alike (h h' : Histogram β) : Prop :=
  ∃ n m edge edge' xs ys, Records n edge xs h ∧ Records m edge' ys h' ∧ xs.length = ys.length

theorem Alike.nsamples (ha : Alike h h') : h'.nsamples = h.nsamples := by
  obtain ⟨n, m, edge, edge', xs, ys, hx, hy, hlength⟩ := ha
  rw [hx.nsamples, hy.nsamples, hlength]

theorem Alike.symm (ha : Alike h h') : Alike h' h := by
  obtain ⟨n, m, edge, edge', xs, ys, hx, hy, hlength⟩ := ha
  exact ⟨m, n, edge', edge, ys, xs, hy, hx, hlength.symm⟩

theorem Alike.trans {h'' : Histogram β} (ha : Alike h h') (ha' : Alike h' h'') : Alike h h'' := by
  have hsame : h''.nsamples = h.nsamples := ha'.nsamples.trans ha.nsamples
  obtain ⟨n, -, edge, -, xs, -, hx, -⟩ := ha
  obtain ⟨-, m, -, edge', -, ys, -, hy, -⟩ := ha'
  rw [hx.nsamples, hy.nsamples] at hsame
  exact ⟨n, m, edge, edge', xs, ys, hx, hy, hsame.symm⟩

/-- One more sample in each of them. -/
theorem weightedSample_alike (t t' : Int) (weight : Nat) :
    Simulates Failure.exceptionClass (Alike (β := β)) (fun _ _ => True) (weightedSample t weight)
      (weightedSample t' weight) := by
  constructor
  rintro h h' ⟨n, m, edge, edge', xs, ys, hx, hy, hlength⟩
  obtain ⟨k, hrun, hk, -⟩ := hx.weightedSample_run t weight
  obtain ⟨k', hrun', hk', -⟩ := hy.weightedSample_run t' weight
  rw [hrun, hrun']
  refine ⟨trivial, n, m, edge, edge', _, _, hk, hk', ?_⟩
  rw [List.length_append, List.length_append, hlength, List.length_replicate, List.length_replicate]

/-- Both have a summary, or both are empty. -/
theorem Alike.summary (ha : Alike h h') {quantiles : List Rat}
    (hq : OfflineFeedStatistics.InUnit quantiles) :
    SameResult (fun v v' => v.length = quantiles.length + 2 ∧ v'.length = quantiles.length + 2)
      (JayBeams.summary quantiles h) (JayBeams.summary quantiles h') := by
  have hsame := ha.nsamples
  obtain ⟨n, m, edge, edge', xs, ys, hx, hy, hlength⟩ := ha
  cases xs with
  | nil =>
      have hzero : h.nsamples = 0 := hx.nsamples
      rw [OfflineFeedStatistics.summary_of_nsamples hzero hq,
        OfflineFeedStatistics.summary_of_nsamples (hsame.trans hzero) hq]
      exact .error _
  | cons x xs =>
      have hne : ys ≠ [] := by
        rintro rfl
        cases hlength
      obtain ⟨v, hv, hlength⟩ := OfflineFeedStatistics.summary_of_ne_nil hx (by simp) hq
      obtain ⟨v', hv', hlength'⟩ := OfflineFeedStatistics.summary_of_ne_nil hy hne hq
      rw [hv, hv']
      exact .ok ⟨hlength, hlength'⟩

end Alike

theorem liftExcept_same {σ τ α β κ : Type} {kind : Failure → κ} {R : σ → τ → Prop} {V : α → β → Prop}
    {x : Except Failure α} {y : Except Failure β} (h : SameResult V x y) :
    Simulates kind R V (liftExcept x) (liftExcept y) := by
  cases h with
  | ok h => exact .pure h
  | error e => exact .throw rfl

namespace OfflineFeedStatistics

/-- The two differ in the processing latencies alone, and have equally many of them. -/
inductive SameCounts (s : OfflineFeedStatistics) : OfflineFeedStatistics → Prop
  | intro (h : Histogram (IntegerRangeBinning (limitsOf CInteger.IntType.uint64)))
      (halike : Alike s.processingLatency h) : SameCounts s { s with processingLatency := h }

theorem SameCounts.symm {s t : OfflineFeedStatistics} (h : SameCounts s t) : SameCounts t s := by
  obtain ⟨h, halike⟩ := h
  exact .intro s.processingLatency halike.symm

theorem SameCounts.trans {s t u : OfflineFeedStatistics} (h : SameCounts s t) (h' : SameCounts t u) :
    SameCounts s u := by
  obtain ⟨h, halike⟩ := h
  obtain ⟨h', halike'⟩ := h'
  exact .intro h' (halike.trans halike')

/-! ## One sample -/

/-- A step on a part other than the latencies, which is the same in both. -/
theorem part_same {τ α : Type} {part : OfflineFeedStatistics → τ}
    {update : τ → OfflineFeedStatistics → OfflineFeedStatistics} {act : EStateM Failure τ α}
    (hpart : ∀ s h, part { s with processingLatency := h } = part s := by intros; rfl)
    (hupdate : ∀ s h x, update x { s with processingLatency := h } =
      { update x s with processingLatency := h } := by intros; rfl)
    (hlatency : ∀ s x, (update x s).processingLatency = s.processingLatency := by intros; rfl) :
    Simulates Failure.exceptionClass SameCounts Eq (onPart part update act)
      (onPart part update act) := by
  apply onPart_simulates (Simulates.refl Failure.exceptionClass act)
  · rintro s _ ⟨h, -⟩
    exact (hpart s h).symm
  · rintro s _ x _ ⟨h, halike⟩ rfl
    rw [← hlatency s x] at halike
    rw [hupdate s h x]
    exact .intro h halike

/-- The latencies are sampled in both. -/
theorem latency_same (pl pl' : Int) :
    Simulates Failure.exceptionClass SameCounts (fun _ _ => True)
      (onPart processingLatency (fun t s => { s with processingLatency := t }) (weightedSample pl 1))
      (onPart processingLatency (fun t s => { s with processingLatency := t })
        (weightedSample pl' 1)) := by
  apply onPart_simulates (weightedSample_alike pl pl' 1)
  · rintro s _ ⟨h, halike⟩
    exact halike
  · rintro s _ x y ⟨h, -⟩ halike
    exact .intro y halike

theorem measure_simulates (ts pl pl' : Int) :
    Simulates Failure.exceptionClass SameCounts (fun _ _ => True) (measure ts pl) (measure ts pl') := by
  refine Simulates.bind part_same fun _ _ _ => ?_
  refine Simulates.bind part_same fun _ _ _ => ?_
  refine Simulates.bind part_same fun _ _ _ => ?_
  have hrest : Simulates Failure.exceptionClass SameCounts (fun _ _ => True)
      (do
        modify fun s => { s with lastTs := ts }
        onPart processingLatency (fun t s => { s with processingLatency := t })
          (weightedSample (CInteger.IntType.uint64.convert pl) 1))
      (do
        modify fun s => { s with lastTs := ts }
        onPart processingLatency (fun t s => { s with processingLatency := t })
          (weightedSample (CInteger.IntType.uint64.convert pl') 1)) := by
    refine Simulates.bind (Simulates.modify ?_) fun _ _ _ => latency_same _ _
    rintro s _ ⟨h, halike⟩
    exact .intro h halike
  apply Simulates.bind Simulates.get
  rintro s _ ⟨h, halike⟩
  simp only [halike.nsamples]
  split
  · exact Simulates.bind part_same fun _ _ _ => hrest
  · exact hrest

/-! ## Reports -/

section Reports

variable {s t : OfflineFeedStatistics}

/-- A report raises for both or for none of them. -/
theorem SameCounts.logProgress (h : SameCounts s t) (logsInfo : Bool) (ts : Int) :
    SameResult (fun _ _ => True) (logProgress logsInfo ts s) (logProgress logsInfo ts t) := by
  obtain ⟨h, halike⟩ := h
  rw [OfflineFeedStatistics.logProgress, OfflineFeedStatistics.logProgress]
  split
  · exact .ok trivial
  · refine (SameResult.refl _).bind fun _ _ _ => ?_
    refine (SameResult.refl _).bind fun _ _ _ => ?_
    refine (SameResult.refl _).bind fun _ _ _ => ?_
    refine (SameResult.refl _).bind fun _ _ _ => ?_
    have hlatency : SameResult (fun _ _ => True)
        (reportLatency logsInfo ts "processing " s.processingLatency)
        (reportLatency logsInfo ts "processing " h) := by
      rw [reportLatency, reportLatency, report, report]
      split
      · exact (halike.summary inUnit_latencyQuantiles).bind fun _ _ _ => .ok trivial
      · exact .ok trivial
    exact hlatency.bind fun _ _ _ => .ok trivial

/-- The ten fields of the latencies, none with a comma -/
structure LatencyFields (fields : List String) : Prop where
  length : fields.length = 10
  plain : ∀ f ∈ fields, ',' ∉ f.toList

theorem latencyFields_map {values : List Int} (h : values.length = 10) :
    LatencyFields (values.map toString) where
  length := by rw [List.length_map, h]
  plain := by
    rw [List.forall_mem_map]
    exact fun x _ => CommaLines.notMem_toString x

theorem latencyFields_empty : LatencyFields (List.replicate 10 "") := ⟨rfl, by decide⟩

/-- Rows that differ in their last ten fields alone. These have no comma, so they are what comes after
the tenth comma from the end. -/
def SameRow (row row' : String) : Prop :=
  ∃ common last last', row = CommaLines.line (common ++ last) ∧
    row' = CommaLines.line (common ++ last') ∧ LatencyFields last ∧ LatencyFields last'

theorem SameCounts.csvRow (h : SameCounts s t) (name : String) :
    SameResult (fun row row' => SameRow (CommaLines.line row) (CommaLines.line row')) (csvRow name s)
      (csvRow name t) := by
  obtain ⟨h, halike⟩ := h
  simp only [OfflineFeedStatistics.csvRow, halike.nsamples]
  split
  · exact .ok ⟨_, _, _, rfl, rfl, latencyFields_empty, latencyFields_empty⟩
  · refine (SameResult.refl _).bind fun sec _ hsec => ?_
    refine (SameResult.refl _).bind fun msec _ hmsec => ?_
    refine (SameResult.refl _).bind fun usec _ husec => ?_
    refine (SameResult.refl _).bind fun arrival _ harrival => ?_
    have hlatency : SameResult (fun v v' => LatencyFields v ∧ LatencyFields v')
        (csvLatency s.processingLatency) (csvLatency h) :=
      (halike.summary inUnit_latencyQuantiles).bind fun v v' hv =>
        .ok ⟨latencyFields_map hv.1, latencyFields_map hv.2⟩
    refine hlatency.bind fun last last' hfields => .ok ?_
    subst hsec hmsec husec harrival
    exact ⟨_, last, last', rfl, rfl, hfields⟩

/-- The rows of the two differ in the fields of the latencies alone. -/
theorem SameCounts.printCsv (h : SameCounts s t) (name : String) :
    SameResult SameRow (printCsv name s) (printCsv name t) :=
  (h.csvRow name).bind fun _ _ hrow => .ok hrow

end Reports

theorem recordSample_simulates (logsInfo : Bool) (ts pl pl' : Int) :
    Simulates Failure.exceptionClass SameCounts (fun _ _ => True) (recordSample logsInfo ts pl)
      (recordSample logsInfo ts pl') := by
  apply Simulates.bind (measure_simulates ts pl pl')
  intro _ _ _
  apply Simulates.bind Simulates.get
  intro s t h
  have hreport := h.logProgress logsInfo ts
  obtain ⟨h, halike⟩ := h
  dsimp only at hreport ⊢
  split
  · apply Simulates.bind (liftExcept_same hreport)
    intro _ _ _
    refine Simulates.bind (Simulates.modify ?_) fun _ _ _ => Simulates.pure trivial
    rintro s _ ⟨h, halike⟩
    exact .intro h halike
  · exact Simulates.pure trivial

/-- Fresh statistics -/
theorem sameCounts_make {cfg : OfflineFeedStatisticsConfig} {s : OfflineFeedStatistics}
    (h : make cfg = .ok s) : SameCounts s s := by
  obtain ⟨sec, -, h⟩ := exists_of_bind_eq_ok h
  obtain ⟨msec, -, h⟩ := exists_of_bind_eq_ok h
  obtain ⟨usec, -, h⟩ := exists_of_bind_eq_ok h
  obtain ⟨arrivals, -, h⟩ := exists_of_bind_eq_ok h
  obtain ⟨arrival, -, h⟩ := exists_of_bind_eq_ok h
  obtain ⟨latencies, -, h⟩ := exists_of_bind_eq_ok h
  obtain ⟨latency, hlatency, h⟩ := exists_of_bind_eq_ok h
  cases h
  obtain rfl := eq_make_of_allocate hlatency
  have hrecords := records_make (IntegerRangeBinning.edges latencies)
  exact .intro _ ⟨_, _, _, _, [], [], hrecords, hrecords, rfl⟩

end OfflineFeedStatistics

end JayBeams
