import JayBeams.Itch5.InsideEquivalence

/-!
# The program returns

On a feed of complete messages in the order of their timestamps, whose share counts and prices the books
accept, no exception ends `itch5inside` but that of its time to stop: the books, the statistics and the
rows of the output are all there (`main_returns`). The lines it writes are then in order, and there are
no more of them than messages.

What a program prints when it returns are the accounts of the lines that it wrote (`report_accounts`).
-/

set_option autoImplicit false

namespace JayBeams

open Bytes Containers Machines Machines.Machine

/-! ## Statistics of few samples in order -/

namespace OfflineFeedStatistics

variable {k k' : Nat} {t t' : Int} {s : OfflineFeedStatistics}

/-- At most `k` samples were recorded, in order and none after `t`. -/
def RecordedUpTo (k : Nat) (t : Int) (s : OfflineFeedStatistics) : Prop :=
  ∃ r samples, Recorded r samples s ∧ Ordered samples ∧ (∀ i ∈ samples, i.1 ≤ t) ∧
    samples.length ≤ k

theorem RecordedUpTo.mono (h : RecordedUpTo k t s) (hk : k ≤ k') (ht : t ≤ t') :
    RecordedUpTo k' t' s := by
  obtain ⟨r, samples, hr, ho, hle, hlength⟩ := h
  exact ⟨r, samples, hr, ho, fun i hi => (hle i hi).trans ht, hlength.trans hk⟩

/-- One more sample -/
theorem recordSample_returns (hk : k + 1 < 2147483648) {ts : Int} (hpos : 0 ≤ ts) (hts : t ≤ ts)
    (pl : Int) (h : RecordedUpTo k t s) :
    ∃ reports s', (recordSample false ts pl).run s = .ok reports s' ∧ RecordedUpTo (k + 1) ts s' := by
  obtain ⟨r, samples, hr, ho, hle, hlength⟩ := h
  have ho' : Ordered (samples ++ [(ts, pl)]) := by
    refine ⟨fun i hi => ?_, List.pairwise_append.2 ⟨ho.sorted, List.pairwise_singleton _ _, ?_⟩⟩
    · rcases List.mem_append.1 hi with hi | hi
      · exact ho.nonneg i hi
      · rw [List.mem_singleton.1 hi]
        exact hpos
    · intro i hi j hj
      rw [List.mem_singleton.1 hj]
      exact (hle i hi).trans hts
  have hfit : RatesFit (samples ++ [(ts, pl)]) := by
    apply ratesFit_of_length
    rw [List.length_append, List.length_singleton]
    omega
  obtain ⟨reports, s', hrun, hr'⟩ := hr.recordSample_run ho' hfit
  refine ⟨reports, s', hrun, r, _, hr', ho', fun i hi => ?_, ?_⟩
  · rcases List.mem_append.1 hi with hi | hi
    · exact (hle i hi).trans hts
    · rw [List.mem_singleton.1 hi]
  · rw [List.length_append, List.length_singleton]
    omega

theorem recordedUpTo_make {cfg : OfflineFeedStatisticsConfig} (hcfg : cfg.validate = .ok ())
    (htypes : FitsTypes cfg) (k : Nat) (t : Int) :
    ∃ s, make cfg = .ok s ∧ RecordedUpTo k t s := by
  obtain ⟨r, s, hmake, -, hl⟩ := make_ok cfg hcfg htypes
  refine ⟨s, hmake, r, [], hl.recorded, ⟨?_, .nil⟩, ?_, Nat.zero_le _⟩
  · exact fun i hi => absurd hi List.not_mem_nil
  · exact fun i hi => absurd hi List.not_mem_nil

/-- The report at the end and the row are there. -/
theorem RecordedUpTo.ends (h : RecordedUpTo k t s) :
    (∃ reports, logFinalProgress false s = .ok reports) ∧ ∀ name, ∃ row, printCsv name s = .ok row := by
  obtain ⟨r, samples, hr, ho, -, -⟩ := h
  constructor
  · rcases hr.logProgress_cases ho false 86400000000000 with ⟨hlogs, -⟩ | ⟨-, reports, hlog⟩
    · cases hlogs
    · exact ⟨reports, hlog⟩
  · intro name
    obtain ⟨fields, hrow, -⟩ := hr.csvRow_spec ho name
    exact ⟨CommaLines.line (name :: fields), printCsv_ok hrow⟩

end OfflineFeedStatistics

namespace Itch5

namespace InsideTool

open OfflineFeedStatistics (RecordedUpTo)

/-! ## One update -/

/-- The program wrote at most `k` lines, in order and none after `t`, and recorded at most `k` samples
in its statistics, and in those of each security. -/
structure Written (k : Nat) (t : Int) (run : Run) : Prop where
  order : InOrder run.out
  last : ∀ line ∈ run.out, line.timestamp ≤ t
  few : run.out.length ≤ k
  stats : RecordedUpTo k t run.stats
  symbols : ∀ name s, run.perSymbol.find? name = some s → RecordedUpTo k t s

section Update

variable {β : Side → Type} [BookType β] {cfg : Config} {call : Callback Wire.StockT β} {run : Run}
  {k : Nat} {t ts : Int}

theorem Written.mono {k' : Nat} {t' : Int} (h : Written k t run) (hk : k ≤ k') (ht : t ≤ t') :
    Written k' t' run where
  order := h.order
  last line hline := (h.last line hline).trans ht
  few := h.few.trans hk
  stats := h.stats.mono hk ht
  symbols name s hs := (h.symbols name s hs).mono hk ht

theorem sample_returns (hk : k + 1 < 2147483648) (hpos : 0 ≤ ts) (hts : t ≤ ts)
    (hr : RecordedUpTo k t run.stats) (pl : Int) :
    ∃ run', (sample false ts pl).run run = .ok () run' ∧ RecordedUpTo (k + 1) ts run'.stats ∧
      run'.out = run.out ∧ run'.perSymbol = run.perSymbol := by
  obtain ⟨reports, s, hrun, hs⟩ := OfflineFeedStatistics.recordSample_returns hk hpos hts pl hr
  refine ⟨{ run with stats := s, log := run.log ++ reports }, ?_, hs, rfl, rfl⟩
  rw [sample, EStateM.run_bind, onPart_run_ok _ _ hrun]
  rfl

/-- The test of a side, and the sample when it succeeds. -/
theorem sampleIf_returns (hk : k + 1 < 2147483648) (hpos : 0 ≤ ts) (hts : t ≤ ts)
    (hr : RecordedUpTo k t run.stats) (pl : Int) {best : Except Failure HalfQuote}
    (hbest : ∃ quote, best = .ok quote) (p : HalfQuote → Prop) [DecidablePred p] :
    ∃ recorded run', (do
        let best ← liftExcept best
        if p best then
          sample false ts pl
          return true
        return false : EStateM Failure Run Bool).run run = .ok recorded run' ∧
      RecordedUpTo (k + 1) ts run'.stats ∧ run'.out = run.out ∧ run'.perSymbol = run.perSymbol := by
  obtain ⟨quote, rfl⟩ := hbest
  by_cases hp : p quote
  · obtain ⟨run', hrun, hstats, hout, hsymbols⟩ := sample_returns hk hpos hts hr pl
    refine ⟨true, run', ?_, hstats, hout, hsymbols⟩
    show (if p quote then _ else _ : EStateM Failure Run Bool).run run = _
    rw [if_pos hp, EStateM.run_bind, hrun]
    rfl
  · refine ⟨false, run, ?_, hr.mono (Nat.le_succ k) hts, rfl, rfl⟩
    show (if p quote then _ else _ : EStateM Failure Run Bool).run run = _
    rw [if_neg hp]
    rfl

/-- Both sides of the book have a best quote. -/
def Quoted (call : Callback Wire.StockT β) : Prop :=
  (∃ quote, call.updatedBook.bestBid = .ok quote) ∧ ∃ quote, call.updatedBook.bestOffer = .ok quote

theorem recordLatencyStats_returns (hk : k + 1 < 2147483648) (hpos : 0 ≤ call.header.timestamp)
    (hts : t ≤ call.header.timestamp) (hr : RecordedUpTo k t run.stats) (hquoted : Quoted call)
    (pl : Int) :
    ∃ recorded run', (recordLatencyStats false call pl).run run = .ok recorded run' ∧
      RecordedUpTo (k + 1) call.header.timestamp run'.stats ∧ run'.out = run.out ∧
      run'.perSymbol = run.perSymbol := by
  rw [recordLatencyStats]
  cases call.update.buySellIndicator with
  | buy => exact sampleIf_returns hk hpos hts hr pl hquoted.1 _
  | sell => exact sampleIf_returns hk hpos hts hr pl hquoted.2 _

theorem generateInside_returns (hk : k + 1 < 2147483648) (hpos : 0 ≤ call.header.timestamp)
    (hts : t ≤ call.header.timestamp) (hr : RecordedUpTo k t run.stats) (hquoted : Quoted call)
    (pl : Int) :
    ∃ reported run', (generateInside false call pl).run run = .ok reported run' ∧
      RecordedUpTo (k + 1) call.header.timestamp run'.stats ∧
      (∃ lines, (lines = [] ∨ ∃ line, lines = [line] ∧ line.timestamp = call.header.timestamp) ∧
        run'.out = run.out ++ lines) ∧ run'.perSymbol = run.perSymbol := by
  obtain ⟨recorded, run', hrecord, hstats, hout, hsymbols⟩ :=
    recordLatencyStats_returns hk hpos hts hr hquoted pl
  obtain ⟨⟨bid, hbid⟩, offer, hoffer⟩ := hquoted
  cases recorded with
  | false =>
      refine ⟨false, run', ?_, hstats, ⟨[], Or.inl rfl, by rw [hout, List.append_nil]⟩, hsymbols⟩
      rw [generateInside, EStateM.run_bind, hrecord]
      rfl
  | true =>
      have hline : (generateInside false call pl).run run =
          .ok true { run' with out := run'.out ++ [⟨call.header.timestamp, call.header.stockLocate,
            call.update.stock.cStr, bid, offer⟩] } := by
        rw [generateInside, EStateM.run_bind, hrecord, hbid, hoffer]
        rfl
      exact ⟨true, _, hline, hstats, ⟨_, Or.inr ⟨_, rfl, rfl⟩, by rw [hout]⟩, hsymbols⟩

theorem samplePerSymbol_returns (hk : k + 1 < 2147483648) (hpos : 0 ≤ ts) (hts : t ≤ ts)
    (hcfg : cfg.symbolStats.validate = .ok ()) (htypes : OfflineFeedStatistics.FitsTypes cfg.symbolStats)
    (hr : ∀ name s, run.perSymbol.find? name = some s → RecordedUpTo k t s) (name : List UInt8)
    (pl : Int) :
    ∃ run', (samplePerSymbol false cfg name ts pl).run run = .ok () run' ∧
      (∀ name s, run'.perSymbol.find? name = some s → RecordedUpTo (k + 1) ts s) ∧
      run'.out = run.out ∧ run'.stats = run.stats := by
  obtain ⟨reports, perSymbol, hrun, hsymbols⟩ := OrderedMap.onEntry_returns
    (OfflineFeedStatistics.recordedUpTo_make hcfg htypes k t)
    (fun s hs => OfflineFeedStatistics.recordSample_returns hk hpos hts pl hs)
    (fun s hs => hs.mono (Nat.le_succ k) hts) name hr
  refine ⟨{ run with perSymbol := perSymbol, log := run.log ++ reports }, ?_, hsymbols, rfl, rfl⟩
  rw [samplePerSymbol, EStateM.run_bind, onPart_run_ok _ _ hrun]
  rfl

/-- Lines after one more update -/
theorem inOrder_append {lines new : List (InsideLine (List UInt8))} (h : InOrder lines)
    (hlast : ∀ line ∈ lines, line.timestamp ≤ t) (hpos : 0 ≤ ts) (hts : t ≤ ts)
    (hnew : new = [] ∨ ∃ line, new = [line] ∧ line.timestamp = ts) :
    InOrder (lines ++ new) ∧ (∀ line ∈ lines ++ new, line.timestamp ≤ ts) ∧
      (lines ++ new).length ≤ lines.length + 1 := by
  rcases hnew with rfl | ⟨line, rfl, rfl⟩
  · rw [List.append_nil]
    exact ⟨h, fun line hline => (hlast line hline).trans hts, Nat.le_succ _⟩
  · refine ⟨⟨?_, ?_⟩, ?_, ?_⟩
    · rw [List.forall_mem_append, List.forall_mem_singleton]
      exact ⟨h.nonneg, hpos⟩
    · rw [List.pairwise_append]
      refine ⟨h.sorted, List.pairwise_singleton _ _, fun a ha b hb => ?_⟩
      rw [List.mem_singleton.1 hb]
      exact (hlast a ha).trans hts
    · rw [List.forall_mem_append, List.forall_mem_singleton]
      exact ⟨fun a ha => (hlast a ha).trans hts, le_rfl⟩
    · rw [List.length_append, List.length_singleton]

/-- An update before the time to stop is handled without an exception. -/
theorem callback_returns (hcfg : cfg.symbolStats.validate = .ok ())
    (htypes : OfflineFeedStatistics.FitsTypes cfg.symbolStats) (h : Written k t run)
    (hk : k + 1 < 2147483648) (hpos : 0 ≤ call.header.timestamp) (hts : t ≤ call.header.timestamp)
    (hquoted : Quoted call) (hstop : ¬ cfg.Stops call.header) (u : Unit) :
    ∃ run', (callback false cfg steady call).run (u, run) = .ok () (u, run') ∧
      Written (k + 1) call.header.timestamp run' := by
  obtain ⟨reported, run', hrun, hstats, ⟨lines, hlines, hout⟩, hsymbols⟩ :=
    generateInside_returns hk hpos hts h.stats hquoted (0 - call.update.recvts)
  obtain ⟨horder, hlast, hlength⟩ := inOrder_append h.order h.last hpos hts hlines
  rw [← hout] at horder hlast hlength
  have hkept : ∀ name s, run'.perSymbol.find? name = some s → RecordedUpTo k t s := by
    rw [hsymbols]
    exact h.symbols
  have hfew : run'.out.length ≤ k + 1 := hlength.trans (Nat.succ_le_succ h.few)
  rw [callback, if_neg hstop]
  have hclock : (onFst steady : EStateM Failure (Unit × Run) Int).run (u, run) = .ok 0 (u, run) := rfl
  have hgenerate : (onSnd (generateInside false call (0 - call.update.recvts)) :
      EStateM Failure (Unit × Run) Bool).run (u, run) = .ok reported (u, run') := onSnd_run_ok hrun
  rw [EStateM.run_bind, hclock]
  dsimp only
  rw [EStateM.run_bind, hgenerate]
  cases reported with
  | false => exact ⟨run', rfl, horder, hlast, hfew, hstats, fun name s hs => (hkept name s hs).mono
      (Nat.le_succ k) hts⟩
  | true =>
      cases cfg.enableSymbolStats with
      | false => exact ⟨run', rfl, horder, hlast, hfew, hstats, fun name s hs => (hkept name s hs).mono
          (Nat.le_succ k) hts⟩
      | true =>
          obtain ⟨run'', hsample, hsymbols', hout', hstats'⟩ := samplePerSymbol_returns hk hpos hts hcfg
            htypes hkept call.update.stock.cStr (0 - call.update.recvts)
          refine ⟨run'', onSnd_run_ok hsample, ?_, ?_, ?_, ?_, hsymbols'⟩
          · rwa [hout']
          · rwa [hout']
          · rwa [hout']
          · rwa [hstats']

theorem callback_stops (hstop : cfg.Stops call.header) (u : Unit) (run : Run) :
    (callback false cfg steady call).run (u, run) =
      .error abortProcessIostream (u, { run with aborted := true }) := by
  rw [callback, if_pos hstop]
  rfl

end Update

/-! ## A feed -/

/-- Map-based books return from every outcome. -/
theorem outcome_returns {κ : Type} [DecidableEq κ] {n : ComputeBook κ MapBasedBookSide} {recvts : Int}
    {msg : Message κ} {result : EStateM.Result Failure (ComputeBook κ MapBasedBookSide)
      (Option (Callback κ MapBasedBookSide))} (h : ComputeBook.Outcome n recvts msg result) :
    ∃ called n', result = .ok called n' := by
  cases h with
  | ignored => exact ⟨_, _, rfl⟩
  | listed m hmsg => exact ⟨_, _, rfl⟩
  | added m c D E hmsg => exact ⟨_, _, rfl⟩
  | reduced header id shares data c D E hmsg => exact ⟨_, _, rfl⟩
  | replaced m data b c D E F hmsg => exact ⟨_, _, rfl⟩
  | failed id data qty f hfind hq hle hinexact => exact absurd trivial hinexact

section Feed

open ComputeBook (Renamed SameCalls machine Admissible handleDecoded handleRecords decode feed)

variable {S : Wire.StockT → Prop} {n : ComputeBook Name MapBasedBookSide}
  {cm : ComputeBook Wire.StockT MapBasedBookSide} {cfg : Config} {run : Run} {k : Nat} {t : Int}

/-- What a message that the books accept comes to: they handle it, and the callback is invoked with its
header and a book with quotes, or is not. -/
theorem handleMessage_returns (h : Renamed ShortStringField.name S cm n) (hcons : n.Consistent)
    {msg : Message Wire.StockT} (hstock : ∀ stock, msg.stock? = some stock → S stock)
    (hadm : n.Admissible (0, msg.mapStock ShortStringField.name)) :
    ∃ called cm', (ComputeBook.handleMessage 0 msg).run cm = .ok called cm' ∧
      Renamed ShortStringField.name S cm'
        ((machine Name MapBasedBookSide).step n (0, msg.mapStock ShortStringField.name)).2 ∧
      ∀ call, called = some call → call.header = msg.header ∧ Quoted call := by
  obtain ⟨called, n', hrun⟩ := outcome_returns (hadm.outcome hcons).1
  have hstep : (machine Name MapBasedBookSide).step n (0, msg.mapStock ShortStringField.name) =
    (.ok called, n') := Machine.ofAction_step_ok hrun
  have hends : Ends id (Renamed ShortStringField.name S) (SameCalls ShortStringField.name)
      ((ComputeBook.handleMessage 0 msg).run cm)
      ((ComputeBook.handleMessage 0 (msg.mapStock ShortStringField.name)).run n) :=
    (ComputeBook.handleMessage_renamed hstock).ends cm n h
  rw [hrun] at hends
  obtain ⟨a, cm', hcm, rfl, h'⟩ := hends.of_ok
  have hheader := (ComputeBook.handleMessage_header 0 msg).fulfils cm trivial
  rw [hcm] at hheader
  rw [hstep]
  exact ⟨a, cm', hcm, h', fun call hcall => ⟨hheader call hcall, ⟨_, rfl⟩, _, rfl⟩⟩

/-- The message was handled: the books are those of the names, and what was written is as expected. -/
def Handled (S : Wire.StockT → Prop) (n : ComputeBook Name MapBasedBookSide) (k : Nat) (t : Int)
    (s : ComputeBook Wire.StockT MapBasedBookSide × Unit × Run) : Prop :=
  Renamed ShortStringField.name S s.1 n ∧ n.Consistent ∧ Written k t s.2.2

/-- The program stopped at its time. -/
def Interrupted (k : Nat) (s : ComputeBook Wire.StockT MapBasedBookSide × Unit × Run) : Prop :=
  s.2.2.aborted = true ∧ ∃ t, Written k t s.2.2

variable {s : ComputeBook Wire.StockT MapBasedBookSide × Unit × Run}

theorem Handled.handleDecoded (h : Handled S n k t s) (hcfg : cfg.symbolStats.validate = .ok ())
    (htypes : OfflineFeedStatistics.FitsTypes cfg.symbolStats) {msg : Message Wire.StockT}
    (hstock : ∀ stock, msg.stock? = some stock → S stock)
    (hadm : n.Admissible (0, msg.mapStock ShortStringField.name))
    (hpos : 0 ≤ msg.header.timestamp) (hts : t ≤ msg.header.timestamp)
    (hk : k + 1 < 2147483648) :
    Fulfils
      (fun _ => Handled S
        ((machine Name MapBasedBookSide).step n (0, msg.mapStock ShortStringField.name)).2 (k + 1)
        msg.header.timestamp)
      (fun _ => Interrupted (k + 1)) ((handleDecoded (callback false cfg steady) (some msg)).run s) := by
  obtain ⟨hrenamed, hcons, hwritten⟩ := h
  obtain ⟨cm, u, run⟩ := s
  obtain ⟨called, cm', hrun, hrenamed', hcall⟩ := handleMessage_returns hrenamed hcons hstock hadm
  have hcons' := (hadm.outcome hcons).2
  have hmono := hwritten.mono (Nat.le_succ k) hts
  have hfirst : (onFst (ComputeBook.handleMessage 0 msg)).run (cm, u, run) = .ok called (cm', u, run) :=
    onFst_run_ok hrun
  rw [ComputeBook.handleDecoded, EStateM.run_bind, hfirst]
  cases called with
  | none => exact ⟨hrenamed', hcons', hmono⟩
  | some call =>
      obtain ⟨hheader, hquoted⟩ := hcall call rfl
      by_cases hstop : cfg.Stops call.header
      · have hstopped := onSnd_run_error (s := (cm', u, run)) (callback_stops hstop u run)
        dsimp only
        rw [hstopped]
        exact ⟨rfl, _, hmono.order, hmono.last, hmono.few, hmono.stats, hmono.symbols⟩
      · rw [← hheader] at hpos hts ⊢
        obtain ⟨run', hreturns, hwritten'⟩ :=
          callback_returns hcfg htypes hwritten hk hpos hts hquoted hstop u
        have hreturned := onSnd_run_ok (s := (cm', u, run)) hreturns
        dsimp only
        rw [hreturned]
        exact ⟨hrenamed', hcons', hwritten'⟩

/-- The messages of a feed that the program can handle to its end: each is decoded, the books accept it,
and their timestamps do not decrease from midnight on. -/
structure Readable (n : ComputeBook Name MapBasedBookSide) (messages : List (List UInt8)) : Prop where
  decoded : ∀ message ∈ messages, ∃ msg, decode message = .ok msg
  admissible : (machine Name MapBasedBookSide).Along Admissible n (named messages)
  nonneg : ∀ i ∈ feed messages, 0 ≤ i.2.header.timestamp
  sorted : (feed messages).Pairwise fun i j =>
    i.2.header.timestamp ≤ j.2.header.timestamp

theorem Handled.handleRecords (h : Handled S n k t s) (hcfg : cfg.symbolStats.validate = .ok ())
    (htypes : OfflineFeedStatistics.FitsTypes cfg.symbolStats) {messages : List (List UInt8)}
    (hread : Readable n messages)
    (hstocks : ∀ i ∈ feed messages, ∀ stock, i.2.stock? = some stock → S stock)
    (hts : ∀ i ∈ feed messages, t ≤ i.2.header.timestamp)
    (hk : k + messages.length < 2147483648) :
    Fulfils (fun _ s => ∃ t, Written (k + messages.length) t s.2.2)
      (fun _ => Interrupted (k + messages.length))
      ((handleRecords (callback false cfg steady) messages).run s) := by
  induction messages generalizing n k t s with
  | nil => exact ⟨t, h.2.2⟩
  | cons message messages ih =>
      obtain ⟨hdecoded, hadm, hnonneg, hsorted⟩ := hread
      rw [List.forall_mem_cons] at hdecoded
      obtain ⟨⟨decoded, hdecode⟩, hdecoded⟩ := hdecoded
      rw [List.length_cons] at hk ⊢
      have hlength : k + (messages.length + 1) = k + 1 + messages.length := by omega
      have hcons : feed (message :: messages) = feed [message] ++ feed messages := by
        rw [feed, feed, feed, List.flatMap_cons, List.flatMap_singleton]
      have hfirst : feed [message] = decoded.toList.map fun msg => (0, msg) := by
        rw [feed, List.flatMap_singleton, hdecode]
        cases decoded <;> rfl
      rw [named_cons, Machine.along_append, named, hfirst] at hadm
      rw [hcons, hfirst] at hnonneg hsorted hstocks hts
      rw [hlength]
      rw [ComputeBook.handleRecords_cons_ok _ hdecode]
      cases decoded with
      | none =>
          have hnext : Handled S n (k + 1) t s := ⟨h.1, h.2.1, h.2.2.mono (Nat.le_succ k) le_rfl⟩
          exact ih hnext ⟨hdecoded, hadm.2, hnonneg, hsorted⟩ hstocks hts (by omega)
      | some msg =>
          simp only [Option.toList_some, List.map_cons, List.map_nil, List.singleton_append,
            List.pairwise_cons, List.forall_mem_cons] at hnonneg hsorted hstocks hts
          have hmsg := h.handleDecoded hcfg htypes hstocks.1 hadm.1.1 hnonneg.1 hts.1 (by omega)
          apply Fulfils.bind hmsg
          · intro _ s' hnext
            exact ih hnext ⟨hdecoded, hadm.2, hnonneg.2, hsorted.2⟩ hstocks.2 hsorted.1 (by omega)
          · rintro e s' ⟨haborted, t', hwritten⟩
            exact ⟨haborted, t', hwritten.mono (by omega) le_rfl⟩

/-- The report at the end and the output are there. -/
theorem Written.printStats (h : Written k t run) :
    (∃ final, OfflineFeedStatistics.logFinalProgress false run.stats = .ok final) ∧
      ∃ rows, InsideTool.printStats run = .ok rows := by
  refine ⟨h.stats.ends.1, ?_⟩
  have hentry : ∀ e ∈ run.perSymbol.entries, ∃ row,
      OfflineFeedStatistics.printCsv (nameString e.1) e.2 = .ok row ∧ True := by
    intro e he
    obtain ⟨row, hrow⟩ := (h.symbols e.1 e.2 (OrderedMap.find?_eq_some_iff.2 he)).ends.2 (nameString e.1)
    exact ⟨row, hrow, trivial⟩
  obtain ⟨rows, hrows, -⟩ := mapM_ok hentry
  obtain ⟨aggregate, haggregate⟩ := h.stats.ends.2 "__aggregate__"
  refine ⟨OfflineFeedStatistics.printCsvHeader :: rows ++ [aggregate], ?_⟩
  rw [InsideTool.printStats, hrows, haggregate]
  rfl

end Feed

/-! ## The program -/

section Program

open ComputeBook (feed machine)

variable {χ : Type} {cfg : Config} {run : Run} {messages : List (List UInt8)}

theorem written_start (hcfg : cfg.validate = .ok ())
    (htypes : OfflineFeedStatistics.FitsTypes cfg.stats) (hstart : start cfg = .ok run) :
    Written 0 0 run := by
  obtain ⟨s, hmake, hs⟩ := OfflineFeedStatistics.recordedUpTo_make (Config.validate_ok hcfg).1 htypes 0 0
  obtain ⟨stats, hstats, rfl⟩ := start_eq_ok hstart
  obtain rfl := Except.ok.inj (hmake.symm.trans hstats)
  refine ⟨⟨?_, .nil⟩, ?_, le_rfl, hs, fun name s h => ?_⟩
  · exact fun line hline => absurd hline List.not_mem_nil
  · exact fun line hline => absurd hline List.not_mem_nil
  · rw [OrderedMap.find?_empty] at h
    cases h

/-- A program that reads its input as the map-based books read the messages returns when these do, or
stop at their time. -/
theorem runInside_returns {β : Side → Type} [BookType β] {bookCfg : BookType.Config β}
    {hashRange : List UInt8 → UInt64} {now : EStateM Failure χ Int} {leftover : IStream → Memory}
    {clock : χ} {input : List UInt8} {k : Nat}
    {records : EStateM.Result Failure (ComputeBook Wire.StockT MapBasedBookSide × Unit × Run) Unit}
    (hinput : Ends Failure.exceptionClass (fun s t => SameRun s.2.2 t.2.2) (fun _ _ => True)
      ((processInput β false cfg now leftover input).run
        (.make (ShortStringField.hashValue hashRange) bookCfg, clock, run)) records)
    (hrecords : Fulfils (fun _ s => ∃ t, Written k t s.2.2) (fun _ => Interrupted k) records) :
    ∃ rows run', (runInside β bookCfg hashRange false cfg now leftover clock input).run run =
      .ok rows run' ∧ InOrder run'.out ∧ run'.out.length ≤ k := by
  have hread : ∃ r r' t, (readInput β bookCfg hashRange false cfg now leftover clock input).run run =
      .ok () r ∧ SameRun r r' ∧ Written k t r' := by
    cases hx : (processInput β false cfg now leftover input).run
        (.make (ShortStringField.hashValue hashRange) bookCfg, clock, run) with
    | ok a s =>
        rw [hx] at hinput
        cases records with
        | error e s' => exact hinput.elim
        | ok b s' =>
            obtain ⟨t, hwritten⟩ := hrecords
            exact ⟨s.2.2, s'.2.2, t, readInput_ok hx, hinput.2, hwritten⟩
    | error e s =>
        rw [hx] at hinput
        cases records with
        | ok b s' => exact hinput.elim
        | error e' s' =>
            obtain ⟨haborted, t, hwritten⟩ := hrecords
            refine ⟨s.2.2, s'.2.2, t, ?_, hinput.2, hwritten⟩
            rw [readInput_error hx, hinput.2.aborted, if_pos haborted]
  obtain ⟨r, r', t, hread, hsame, hwritten⟩ := hread
  obtain ⟨⟨final', hfinal'⟩, rows', hrows'⟩ := hwritten.printStats
  have hfinal := hsame.stats.logProgress false 86400000000000
  have hrows := hsame.printStats
  rw [OfflineFeedStatistics.logFinalProgress] at hfinal'
  rw [hfinal'] at hfinal
  obtain ⟨final, hfinal, -⟩ := hfinal.of_ok
  rw [hrows'] at hrows
  obtain ⟨rows, hrows, -⟩ := hrows.of_ok
  refine ⟨rows, { r with log := r.log ++ final }, ?_, ?_, ?_⟩
  · rw [runInside, EStateM.run_bind, hread]
    simp only [EStateM.run_bind, EStateM.run_get, OfflineFeedStatistics.logFinalProgress,
      liftExcept_run_ok hfinal]
    exact liftExcept_run_ok hrows _
  · show InOrder r.out
    rw [hsame.out]
    exact hwritten.order
  · show r.out.length ≤ k
    rw [hsame.out]
    exact hwritten.few

variable {now : EStateM Failure χ Int}

/-- The map-based books handle the messages of a feed that can be read to its end, and the program reads
them so. -/
theorem records_returns (hashRange : List UInt8 → UInt64) (hashName : Name → UInt64)
    (hcfg : cfg.validate = .ok ()) (htypes : OfflineFeedStatistics.FitsTypes cfg.stats)
    (htypes' : OfflineFeedStatistics.FitsTypes cfg.symbolStats) (hnow : Ticks now)
    (leftover : IStream → Memory) (clock : χ)
    (hmessages : ∀ message ∈ messages, message.length < 65536 ∧ Wire.Decisive message)
    (hhash : HashesAgree hashRange messages) (hread : Readable (.make hashName ()) messages)
    (hfew : messages.length < 2147483648) (hstart : start cfg = .ok run) :
    let start := (.make (ShortStringField.hashValue hashRange) () :
      ComputeBook Wire.StockT MapBasedBookSide)
    let records := (ComputeBook.handleRecords (callback false cfg steady) messages).run (start, (), run)
    Fulfils (fun _ s => ∃ t, Written messages.length t s.2.2) (fun _ => Interrupted messages.length)
        records ∧
      Ends Failure.exceptionClass (fun s t => SameRun s.2.2 t.2.2) (fun _ _ => True)
        ((processInput MapBasedBookSide false cfg now leftover
          (MoldUdpPacket.encodeBlocks messages)).run (start, clock, run)) records := by
  intro start records
  have hinit : Handled (· ∈ ShortStringField.stocks (feed messages)) (.make hashName ()) 0 0
      (start, (), run) :=
    ⟨hhash.renamed (β := MapBasedBookSide) hashName (), ComputeBook.consistent_make hashName trivial,
      written_start hcfg htypes hstart⟩
  have hrecords := hinit.handleRecords (Config.validate_ok hcfg).2 htypes' hread stock_mem_stocks
    hread.nonneg (by rwa [Nat.zero_add])
  rw [Nat.zero_add] at hrecords
  have hmap := (processInput_simulates (β := MapBasedBookSide) false cfg hnow leftover
    hmessages).ends (start, clock, run) (start, (), run) ⟨rfl, sameRun_start hstart⟩
  exact ⟨hrecords, hmap.imp (fun _ _ h => h.2) fun _ _ _ => trivial⟩

/-- On a feed that can be read to its end the program returns: with map-based books, and with array-based
ones of two levels or more at each side when the prices of the feed are quoted as they are. It has then
written its lines in order, at most one for each message. -/
theorem main_returns (hashRange : List UInt8 → UInt64) (hashName : Name → UInt64)
    (hcfg : cfg.validate = .ok ()) (htypes : OfflineFeedStatistics.FitsTypes cfg.stats)
    (htypes' : OfflineFeedStatistics.FitsTypes cfg.symbolStats)
    (harray : cfg.enableArrayBased = true →
      2 ≤ cfg.bookCfg.maxSize ∧ ∀ i ∈ named messages, i.2.PriceIn QuotedPrice)
    (hnow : Ticks now) (leftover : IStream → Memory) (clock : χ)
    (hmessages : ∀ message ∈ messages, message.length < 65536 ∧ Wire.Decisive message)
    (hhash : HashesAgree hashRange messages)
    (hread : Readable (.make hashName ()) messages) (hfew : messages.length < 2147483648)
    (hstart : start cfg = .ok run) :
    ∃ rows run', (main hashRange false cfg now leftover clock
        (MoldUdpPacket.encodeBlocks messages)).run run = .ok rows run' ∧
      InOrder run'.out ∧ run'.out.length ≤ messages.length := by
  obtain ⟨hrecords, hmap⟩ := records_returns hashRange hashName hcfg htypes htypes' hnow leftover clock
    hmessages hhash hread hfew hstart
  rw [main]
  split
  · next henable =>
      obtain ⟨hsize, hprices⟩ := harray henable
      have htrade : (machine Name MapBasedBookSide).Along ComputeBook.Tradable (.make hashName ())
          (named messages) := by
        have hquoted := Machine.along_of_forall (machine Name MapBasedBookSide)
          (P := fun _ i => i.2.PriceIn QuotedPrice) (fun i hi _ => hprices i hi) (.make hashName ())
        exact (hread.admissible.and hquoted).imp fun _ _ h => ⟨h.1.1, h.2, h.1.2.2⟩
      have hsame := sameRun_start hstart
      have harrays := (processInput_simulates (β := ArrayBasedBookSide) false cfg hnow leftover
        hmessages).ends (.make (ShortStringField.hashValue hashRange) cfg.bookCfg, clock, run)
        (.make (ShortStringField.hashValue hashRange) cfg.bookCfg, (), run) ⟨rfl, hsame⟩
      refine runInside_returns ((harrays.trans
        (records_same hashName hsize hhash htrade hsame)).imp ?_ fun _ _ _ => trivial) hrecords
      rintro s m ⟨t, hst, htm⟩
      exact hst.2.trans htm
  · exact runInside_returns hmap hrecords

theorem readable_twoOrders : Readable (.make (fun _ => 0) ()) [buyOrder 1, buyOrder 2] where
  decoded := by
    have hok : ∀ message ∈ [buyOrder 1, buyOrder 2],
        (ComputeBook.decode message).toOption.isSome = true := by
      decide +kernel
    intro message hmessage
    have hsome := hok message hmessage
    cases hdecode : ComputeBook.decode message with
    | ok msg => exact ⟨msg, rfl⟩
    | error e =>
        rw [hdecode] at hsome
        cases hsome
  admissible := ComputeBook.along_admissible _ twoOrders_shares twoOrders_fit
  nonneg := by decide +kernel
  sorted := by decide +kernel

/-- A configuration with the names of the files, and statistics for each security. -/
def withFiles : Config :=
  { Config.default with inputFile := "in.gz", outputFile := "out.gz", enableSymbolStats := true }

theorem validate_withFiles : withFiles.validate = .ok () := rfl

theorem fitsTypes_perSymbol : OfflineFeedStatistics.FitsTypes Config.defaultPerSymbolStats :=
  ⟨by decide, by decide, by decide, by decide, by decide⟩

theorem start_withFiles : ∃ run, start withFiles = .ok run := by
  obtain ⟨s, hmake, -⟩ := OfflineFeedStatistics.recordedUpTo_make (Config.validate_ok
    validate_withFiles).1 OfflineFeedStatistics.fitsTypes_default 0 0
  refine ⟨⟨s, [], [], .empty, false⟩, ?_⟩
  rw [start, show OfflineFeedStatistics.make withFiles.stats = .ok s from hmake]
  rfl

/-- Two orders -/
theorem main_returns_two_orders : ∃ run rows run', start withFiles = .ok run ∧
    (main (fun _ => 0) false withFiles steady (fun _ _ => 0) ()
      (MoldUdpPacket.encodeBlocks [buyOrder 1, buyOrder 2])).run run = .ok rows run' := by
  obtain ⟨run, hstart⟩ := start_withFiles
  obtain ⟨rows, run', hrun, -⟩ := main_returns (fun _ => 0) (fun _ => 0) validate_withFiles
    OfflineFeedStatistics.fitsTypes_default fitsTypes_perSymbol (fun h => by cases h) steady_ticks
    (fun _ _ => 0) () twoOrders_decisive (fun _ _ _ _ _ => rfl) readable_twoOrders (by decide) hstart
  exact ⟨run, rows, run', hstart, hrun⟩

/-- A program that returns has written lines whose statistics it prints: those of all updates, and with
statistics for each security those of the securities that have a line, in the order of their names.
Each row counts the lines it is about, unless there is one at most or they are all of one
millisecond. -/
theorem report_accounts {χ : Type} {β : Side → Type} [BookType β] {cfg : Config}
    (hcfg : cfg.validate = .ok ()) (htypes : OfflineFeedStatistics.FitsTypes cfg.stats)
    (htypes' : OfflineFeedStatistics.FitsTypes cfg.symbolStats) (bookCfg : BookType.Config β)
    (hashRange : List UInt8 → UInt64) (logsInfo : Bool) (now : EStateM Failure χ Int)
    (leftover : IStream → Memory) (clock : χ) (input : List UInt8) {run run' : Run}
    {rows : List String} (hstart : start cfg = .ok run)
    (hrun : (runInside β bookCfg hashRange logsInfo cfg now leftover clock input).run run =
      .ok rows run')
    (horder : InOrder run'.out) (hfew : run'.out.length < 2147483648) :
    (∃ samples, Accounts logsInfo cfg samples run') ∧
      ∃ names symbolRows aggregate, names.Pairwise (· < ·) ∧
        (∀ name, name ∈ names ↔ cfg.enableSymbolStats = true ∧ ∃ line ∈ run'.out, line.stock = name) ∧
        rows = OfflineFeedStatistics.printCsvHeader :: symbolRows ++ [aggregate] ∧
        List.Forall₂
          (fun name row => RowOf (nameString name) (run'.out.filter fun line => line.stock = name) row)
          names symbolRows ∧
        RowOf "__aggregate__" run'.out aggregate := by
  obtain ⟨⟨samples, h⟩, hprint⟩ := runInside_accounts hstart hrun
  obtain ⟨hstats, hsymbols⟩ := Config.validate_ok hcfg
  obtain ⟨symbolRows, aggregate, hrows, hall, hrow⟩ := h.rows hstats hsymbols htypes htypes' horder hfew
  obtain ⟨hsorted, hnames⟩ := h.names
  exact ⟨⟨samples, h⟩, _, symbolRows, aggregate, hsorted, hnames,
    Except.ok.inj (hprint.symm.trans hrows), hall, hrow⟩

/-- The accounts of two orders, with a row for each security -/
theorem report_accounts_two_orders : ∃ run rows run', start withFiles = .ok run ∧
    (runInside MapBasedBookSide () (fun _ => 0) false withFiles steady (fun _ _ => 0) ()
      (MoldUdpPacket.encodeBlocks [buyOrder 1, buyOrder 2])).run run = .ok rows run' ∧
    (∃ samples, Accounts false withFiles samples run') ∧
    ∃ names symbolRows aggregate, names.Pairwise (· < ·) ∧
      (∀ name, name ∈ names ↔ withFiles.enableSymbolStats = true ∧
        ∃ line ∈ run'.out, line.stock = name) ∧
      rows = OfflineFeedStatistics.printCsvHeader :: symbolRows ++ [aggregate] ∧
      List.Forall₂
        (fun name row => RowOf (nameString name) (run'.out.filter fun line => line.stock = name) row)
        names symbolRows ∧
      RowOf "__aggregate__" run'.out aggregate := by
  obtain ⟨run, hstart⟩ := start_withFiles
  obtain ⟨hrecords, hmap⟩ := records_returns (fun _ => 0) (fun _ => 0) validate_withFiles
    OfflineFeedStatistics.fitsTypes_default fitsTypes_perSymbol steady_ticks (fun _ _ => 0) ()
    twoOrders_decisive (fun _ _ _ _ _ => rfl) readable_twoOrders (by decide) hstart
  obtain ⟨rows, run', hrun, horder, hfew⟩ := runInside_returns hmap hrecords
  exact ⟨run, rows, run', hstart, hrun, report_accounts (β := MapBasedBookSide) validate_withFiles
    OfflineFeedStatistics.fitsTypes_default fitsTypes_perSymbol () (fun _ => 0) false steady
    (fun _ _ => 0) () _ hstart hrun horder (hfew.trans_lt (by decide))⟩

end Program

end InsideTool

end Itch5

end JayBeams
