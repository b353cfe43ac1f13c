import JayBeams.Itch5.InsideTool

/-!
# The accounts of the inside of a file

`Accounts` says what `itch5inside` has while it reads its input: the statistics of the lines it wrote,
all of them and those of each security on their own. It is kept by each update (`callback_meets`) and
so, whatever the input, the books and the clock, by the whole program (`runInside_accounts`). The rows
that are printed from accounts count the lines that were written (`Accounts.rows`).
-/

set_option autoImplicit false

namespace JayBeams

open Bytes Machines Machines.Machine Containers

namespace Itch5

namespace InsideTool

/-! ## The accounts of a run -/

/-- The sample of a line and the latency of its update -/
def sampleOf (logsInfo : Bool) (i : InsideLine (List UInt8) × Int) :
    EStateM Failure OfflineFeedStatistics (List Report) :=
  OfflineFeedStatistics.recordSample logsInfo i.1.timestamp i.2

/-- The lines with the latencies of their updates: the statistics are those of all of them, and the ones
of each security those of its own lines. -/
structure Accounts (logsInfo : Bool) (cfg : Config) (samples : List (InsideLine (List UInt8) × Int))
    (run : Run) : Prop where
  lines : run.out = samples.map Prod.fst
  stats : After (OfflineFeedStatistics.make cfg.stats) (sampleOf logsInfo) samples run.stats
  symbols : cfg.enableSymbolStats = true → OrderedMap.Grouped
    (OfflineFeedStatistics.make cfg.symbolStats) (sampleOf logsInfo) (fun i => i.1.stock) samples
    run.perSymbol
  plain : cfg.enableSymbolStats = false → run.perSymbol = .empty

/-- The program reads its input, and has accounted for what it wrote. -/
def Running (logsInfo : Bool) (cfg : Config) (run : Run) : Prop :=
  run.aborted = false ∧ ∃ samples, Accounts logsInfo cfg samples run

/-- When the program stops at its time, it has accounted for what it wrote. -/
def Stopped (logsInfo : Bool) (cfg : Config) (run : Run) : Prop :=
  run.aborted = true → ∃ samples, Accounts logsInfo cfg samples run

section Steps

variable {β : Side → Type} [BookType β] {χ : Type} {logsInfo : Bool} {cfg : Config}
  {call : Callback Wire.StockT β} {pl : Int} {run run' : Run}

theorem sample_eq_ok {ts : Int} {u : Unit} (h : (sample logsInfo ts pl).run run = .ok u run') :
    ∃ reports stats, (OfflineFeedStatistics.recordSample logsInfo ts pl).run run.stats =
        .ok reports stats ∧ run' = { run with stats := stats, log := run.log ++ reports } := by
  obtain ⟨reports, t, hpart, hmodify⟩ := run_bind_eq_ok h
  obtain ⟨stats, hrun, rfl⟩ := onPart_eq_ok _ _ hpart
  cases hmodify
  exact ⟨reports, stats, hrun, rfl⟩

/-- The test of a side, and the sample when it succeeds. -/
theorem sampleIf_eq_ok {best : Except Failure HalfQuote} {p : HalfQuote → Prop} [DecidablePred p]
    {ts : Int} {recorded : Bool}
    (h : (do
      let best ← liftExcept best
      if p best then
        sample logsInfo ts pl
        return true
      return false : EStateM Failure Run Bool).run run = .ok recorded run') :
    recorded = false ∧ run' = run ∨
      recorded = true ∧ (sample logsInfo ts pl).run run = .ok () run' := by
  cases best with
  | error e => cases h
  | ok best =>
      change (if p best then _ else _ : EStateM Failure Run Bool).run run = _ at h
      split at h
      · obtain ⟨u, t, hsample, hreturn⟩ := run_bind_eq_ok h
        cases hreturn
        exact Or.inr ⟨rfl, hsample⟩
      · cases h
        exact Or.inl ⟨rfl, rfl⟩

theorem recordLatencyStats_eq_ok {recorded : Bool}
    (h : (recordLatencyStats logsInfo call pl).run run = .ok recorded run') :
    recorded = false ∧ run' = run ∨
      recorded = true ∧ (sample logsInfo call.header.timestamp pl).run run = .ok () run' := by
  rw [recordLatencyStats] at h
  cases hside : call.update.buySellIndicator with
  | buy =>
      rw [hside] at h
      exact sampleIf_eq_ok h
  | sell =>
      rw [hside] at h
      exact sampleIf_eq_ok h

/-- A line is written exactly when the update is reported, and then there is a sample for it. -/
theorem generateInside_eq_ok {reported : Bool}
    (h : (generateInside logsInfo call pl).run run = .ok reported run') :
    reported = false ∧ run' = run ∨
      reported = true ∧ ∃ line reports stats, line.timestamp = call.header.timestamp ∧
        line.stock = call.update.stock.cStr ∧
        (sampleOf logsInfo (line, pl)).run run.stats = .ok reports stats ∧
        run' = { run with stats := stats, log := run.log ++ reports, out := run.out ++ [line] } := by
  obtain ⟨recorded, t, hrecord, hrest⟩ := run_bind_eq_ok h
  rcases recordLatencyStats_eq_ok hrecord with ⟨rfl, rfl⟩ | ⟨rfl, hsample⟩
  · cases hrest
    exact Or.inl ⟨rfl, rfl⟩
  · obtain ⟨reports, stats, hrun, rfl⟩ := sample_eq_ok hsample
    cases hbid : call.updatedBook.bestBid with
    | error e =>
        rw [hbid] at hrest
        cases hrest
    | ok bid =>
        cases hoffer : call.updatedBook.bestOffer with
        | error e =>
            rw [hbid, hoffer] at hrest
            cases hrest
        | ok offer =>
            rw [hbid, hoffer] at hrest
            cases hrest
            refine Or.inr ⟨rfl, ⟨call.header.timestamp, call.header.stockLocate,
              call.update.stock.cStr, bid, offer⟩, reports, stats, rfl, rfl, ?_, rfl⟩
            rw [sampleOf]
            exact hrun

theorem samplePerSymbol_eq_ok {name : List UInt8} {ts : Int} {u : Unit}
    (h : (samplePerSymbol logsInfo cfg name ts pl).run run = .ok u run') :
    ∃ reports perSymbol,
      (OrderedMap.onEntry (OfflineFeedStatistics.make cfg.symbolStats) name
        (OfflineFeedStatistics.recordSample logsInfo ts pl)).run run.perSymbol =
          .ok reports perSymbol ∧
      run' = { run with perSymbol := perSymbol, log := run.log ++ reports } := by
  obtain ⟨reports, t, hpart, hmodify⟩ := run_bind_eq_ok h
  obtain ⟨perSymbol, hrun, rfl⟩ := onPart_eq_ok _ _ hpart
  cases hmodify
  exact ⟨reports, perSymbol, hrun, rfl⟩

/-! ### What an update leaves as it is -/

theorem keeps_onPart {σ τ α : Type} {I : σ → Prop} {part : σ → τ} {update : τ → σ → σ}
    (h : ∀ t s, I s → I (update t s)) (act : EStateM Failure τ α) :
    Keeps I (onPart part update act) := by
  constructor
  intro s hs
  cases hrun : act.run (part s) with
  | ok a t =>
      rw [onPart_run_ok part update hrun]
      exact h t s hs
  | error e t =>
      rw [onPart_run_error part update hrun]
      exact h t s hs

theorem keeps_liftExcept {σ α : Type} {I : σ → Prop} (x : Except Failure α) :
    Keeps I (liftExcept x : EStateM Failure σ α) := by
  cases x with
  | ok a => exact Keeps.pure a
  | error e => exact Keeps.throw e

/-- A property of a run that depends neither on its statistics nor on its log. -/
structure Ignores (I : Run → Prop) : Prop where
  stats : ∀ run stats, I run → I { run with stats := stats }
  log : ∀ run log, I run → I { run with log := log }
  perSymbol : ∀ run perSymbol, I run → I { run with perSymbol := perSymbol }

theorem ignores_running : Ignores (·.aborted = false) :=
  ⟨fun _ _ h => h, fun _ _ h => h, fun _ _ h => h⟩

section Ignores

variable {I : Run → Prop}

theorem sample_keeps (hI : Ignores I) (ts : Int) : Keeps I (sample logsInfo ts pl) := by
  apply Keeps.bind
  · apply keeps_onPart
    exact fun stats run h => hI.stats run stats h
  · exact fun _ => Keeps.modify fun run h => hI.log run _ h

theorem recordLatencyStats_keeps (hI : Ignores I) : Keeps I (recordLatencyStats logsInfo call pl) := by
  rw [recordLatencyStats]
  cases call.update.buySellIndicator with
  | buy =>
      apply Keeps.bind (keeps_liftExcept _)
      intro best
      split
      · exact Keeps.bind (sample_keeps hI _) fun _ => Keeps.pure _
      · exact Keeps.pure _
  | sell =>
      apply Keeps.bind (keeps_liftExcept _)
      intro best
      split
      · exact Keeps.bind (sample_keeps hI _) fun _ => Keeps.pure _
      · exact Keeps.pure _

theorem generateInside_keeps (hI : Ignores I)
    (hline : ∀ run line, line.timestamp = call.header.timestamp → I run →
      I { run with out := run.out ++ [line] }) : Keeps I (generateInside logsInfo call pl) := by
  apply Keeps.bind (recordLatencyStats_keeps hI)
  intro recorded
  split
  · exact Keeps.pure _
  · apply Keeps.bind (keeps_liftExcept _)
    intro bid
    apply Keeps.bind (keeps_liftExcept _)
    intro offer
    exact Keeps.bind (Keeps.modify fun run h => hline run _ rfl h) fun _ => Keeps.pure _

theorem samplePerSymbol_keeps (hI : Ignores I) (name : List UInt8) (ts : Int) :
    Keeps I (samplePerSymbol logsInfo cfg name ts pl) := by
  apply Keeps.bind
  · apply keeps_onPart
    exact fun perSymbol run h => hI.perSymbol run perSymbol h
  · exact fun _ => Keeps.modify fun run h => hI.log run _ h

theorem callback_keeps {χ : Type} (hI : Ignores I) (now : EStateM Failure χ Int)
    (hstop : cfg.Stops call.header → ∀ run, I run → I { run with aborted := true })
    (hline : ¬ cfg.Stops call.header → ∀ run line, line.timestamp = call.header.timestamp → I run →
      I { run with out := run.out ++ [line] }) :
    Meets (fun s : χ × Run => I s.2) (callback logsInfo cfg now call) (fun _ s => I s.2)
      (fun _ s => I s.2) := by
  rw [callback]
  split
  · next hstops =>
      apply Meets.bind (Q := fun _ s => I s.2)
      · exact Meets.onSnd (Meets.modify (hstop hstops))
      · exact fun _ => Meets.throw fun _ h => h
  · next hgoes =>
      apply Meets.bind (Meets.onFst_frame now)
      intro ts
      apply Meets.bind (Meets.of_invariant (generateInside_keeps hI (hline hgoes))).onSnd
      intro reported
      split
      · exact Meets.pure fun _ h => h
      · split
        · exact (Meets.of_invariant (samplePerSymbol_keeps hI _ _)).onSnd
        · exact Meets.pure fun _ h => h

end Ignores

end Steps

/-! ### One update -/

section Update

variable {χ : Type} {logsInfo : Bool} {cfg : Config} {run run' : Run}
  {samples : List (InsideLine (List UInt8) × Int)} {name : List UInt8} {ts pl : Int}

/-- The last line is not accounted for yet in the statistics of its security. -/
def Pending (logsInfo : Bool) (cfg : Config) (name : List UInt8) (ts pl : Int) (run : Run) : Prop :=
  ∃ samples line, line.timestamp = ts ∧ line.stock = name ∧
    run.out = (samples ++ [(line, pl)]).map Prod.fst ∧
    After (OfflineFeedStatistics.make cfg.stats) (sampleOf logsInfo) (samples ++ [(line, pl)])
      run.stats ∧
    (cfg.enableSymbolStats = true → OrderedMap.Grouped (OfflineFeedStatistics.make cfg.symbolStats)
      (sampleOf logsInfo) (fun i => i.1.stock) samples run.perSymbol) ∧
    (cfg.enableSymbolStats = false → run.perSymbol = .empty)

theorem Accounts.generateInside_ok {β : Side → Type} [BookType β] (h : Accounts logsInfo cfg samples run)
    {call : Callback Wire.StockT β} {reported : Bool}
    (hrun : (generateInside logsInfo call pl).run run = .ok reported run') :
    reported = false ∧ run' = run ∨
      reported = true ∧ Pending logsInfo cfg call.update.stock.cStr call.header.timestamp pl run' := by
  rcases generateInside_eq_ok hrun with hno | ⟨hyes, line, reports, stats, hts, hstock, hsample, rfl⟩
  · exact Or.inl hno
  · refine Or.inr ⟨hyes, samples, line, hts, hstock, ?_, h.stats.next hsample, h.symbols, h.plain⟩
    rw [List.map_append, ← h.lines]
    rfl

/-- The sample of the security completes the accounts. -/
theorem Pending.samplePerSymbol_ok (h : Pending logsInfo cfg name ts pl run)
    (henable : cfg.enableSymbolStats = true) {u : Unit}
    (hrun : (samplePerSymbol logsInfo cfg name ts pl).run run = .ok u run') :
    ∃ samples, Accounts logsInfo cfg samples run' := by
  obtain ⟨samples, line, rfl, rfl, hout, hstats, hsymbols, hplain⟩ := h
  obtain ⟨reports, perSymbol, hentry, rfl⟩ := samplePerSymbol_eq_ok hrun
  refine ⟨samples ++ [(line, pl)], hout, hstats, fun _ => ?_, fun hno => ?_⟩
  · exact OrderedMap.Grouped.onEntry (hsymbols henable) hentry
  · rw [henable] at hno
    cases hno

/-- Without statistics of the securities they are complete. -/
theorem Pending.accounts (h : Pending logsInfo cfg name ts pl run)
    (henable : cfg.enableSymbolStats = false) : ∃ samples, Accounts logsInfo cfg samples run := by
  obtain ⟨samples, line, -, -, hout, hstats, -, hplain⟩ := h
  refine ⟨samples ++ [(line, pl)], hout, hstats, fun hyes => ?_, hplain⟩
  rw [henable] at hyes
  cases hyes

theorem stopped_of_running (h : run.aborted = false) : Stopped logsInfo cfg run := by
  intro haborted
  rw [h] at haborted
  cases haborted

theorem samplePerSymbol_meets (henable : cfg.enableSymbolStats = true) :
    Meets (fun run => run.aborted = false ∧ Pending logsInfo cfg name ts pl run)
      (samplePerSymbol logsInfo cfg name ts pl) (fun _ => Running logsInfo cfg)
      (fun _ => Stopped logsInfo cfg) := by
  refine (Meets.of_keeps (samplePerSymbol_keeps ignores_running name ts) ?_).imp (fun _ h => h)
    (fun _ _ h => h) fun _ _ h => stopped_of_running h
  intro run u run' h hrun
  exact h.samplePerSymbol_ok henable hrun

/-- Each update is accounted for, unless it raises an exception other than that of the time to stop. -/
theorem callback_meets {β : Side → Type} [BookType β] (now : EStateM Failure χ Int)
    (call : Callback Wire.StockT β) :
    Meets (fun s : χ × Run => Running logsInfo cfg s.2) (callback logsInfo cfg now call)
      (fun _ s => Running logsInfo cfg s.2) (fun _ s => Stopped logsInfo cfg s.2) := by
  rw [callback]
  split
  · apply Meets.bind (Q := fun _ s => Stopped logsInfo cfg s.2)
    · exact Meets.onSnd (Meets.modify fun run h _ => h.2.imp fun _ h => ⟨h.1, h.2, h.3, h.4⟩)
    · exact fun _ => Meets.throw fun _ h => h
  · apply Meets.bind ((Meets.onFst_frame now).imp (fun _ h => h) (fun _ _ h => h)
      fun _ _ h => stopped_of_running h.1)
    intro t
    have hgenerate : Meets (Running logsInfo cfg) (generateInside logsInfo call (t - call.update.recvts))
        (fun reported run => run.aborted = false ∧
          (reported = false ∧ (∃ samples, Accounts logsInfo cfg samples run) ∨
            reported = true ∧ Pending logsInfo cfg call.update.stock.cStr call.header.timestamp
              (t - call.update.recvts) run)) (fun _ run => Stopped logsInfo cfg run) := by
      refine (Meets.of_keeps (generateInside_keeps ignores_running fun _ _ _ h => h) ?_).imp
        (fun _ h => h) (fun _ _ h => h) fun _ _ h => stopped_of_running h
      rintro run reported run' ⟨samples, h⟩ hrun
      rcases h.generateInside_ok hrun with ⟨hno, rfl⟩ | hyes
      · exact Or.inl ⟨hno, samples, h⟩
      · exact Or.inr hyes
    apply Meets.bind hgenerate.onSnd
    intro reported
    split
    · next hno =>
        apply Meets.pure
        rintro s ⟨hrunning, ⟨-, h⟩ | ⟨hyes, -⟩⟩
        · exact ⟨hrunning, h⟩
        · rw [hyes] at hno
          cases hno
    · next hyes =>
        split
        · next henable =>
            refine (samplePerSymbol_meets henable).onSnd.imp ?_ (fun _ _ h => h) fun _ _ h => h
            rintro s ⟨hrunning, ⟨hno, -⟩ | ⟨-, h⟩⟩
            · rw [hno] at hyes
              exact absurd rfl hyes
            · exact ⟨hrunning, h⟩
        · next henable =>
            apply Meets.pure
            rintro s ⟨hrunning, ⟨hno, -⟩ | ⟨-, h⟩⟩
            · rw [hno] at hyes
              exact absurd rfl hyes
            · exact ⟨hrunning, h.accounts (Bool.eq_false_iff.2 henable)⟩

end Update

/-! ### Whole runs -/

section Whole

variable {β : Side → Type} [BookType β] {χ : Type} {logsInfo : Bool} {cfg : Config} {run run' : Run}

theorem start_eq_ok (h : start cfg = .ok run) :
    ∃ stats, OfflineFeedStatistics.make cfg.stats = .ok stats ∧
      run = ⟨stats, [], [], .empty, false⟩ := by
  rw [start] at h
  cases hmake : OfflineFeedStatistics.make cfg.stats with
  | error e =>
      rw [hmake] at h
      cases h
  | ok stats =>
      rw [hmake] at h
      cases h
      exact ⟨stats, rfl, rfl⟩

theorem accounts_start (h : start cfg = .ok run) : Running logsInfo cfg run := by
  obtain ⟨stats, hmake, rfl⟩ := start_eq_ok h
  exact ⟨rfl, [], rfl, .start hmake, fun _ => .empty, fun _ => rfl⟩

/-- Whatever the input is, it is accounted for what was written up to its end. -/
theorem processInput_meets (now : EStateM Failure χ Int) (leftover : IStream → Memory)
    (input : List UInt8) :
    Meets (fun s : ComputeBook Wire.StockT β × χ × Run => Running logsInfo cfg s.2.2)
      (processInput β logsInfo cfg now leftover input) (fun _ s => Running logsInfo cfg s.2.2)
      (fun _ s => Stopped logsInfo cfg s.2.2) := by
  have hnow : Meets (fun s : χ × Run => Running logsInfo cfg s.2) (onFst now)
      (fun _ s => Running logsInfo cfg s.2) (fun _ s => Stopped logsInfo cfg s.2) :=
    (Meets.onFst_frame now).imp (fun _ h => h) (fun _ _ h => h) fun _ _ h => stopped_of_running h.1
  apply processIostreamMlist_meets hnow.onSnd
  · exact ComputeBook.messageHandler_meets (callback_meets now) (fun _ h => h)
      (fun _ _ h => stopped_of_running h.1) _
  · exact fun _ _ h => stopped_of_running h.1

section Returns

variable {bookCfg : BookType.Config β} {hashRange : List UInt8 → UInt64}
  {now : EStateM Failure χ Int} {leftover : IStream → Memory} {clock : χ} {input : List UInt8}

/-- The input was read to its end. -/
theorem readInput_ok {u : Unit} {s : ComputeBook Wire.StockT β × χ × Run}
    (h : (processInput β logsInfo cfg now leftover input).run
      (.make (ShortStringField.hashValue hashRange) bookCfg, clock, run) = .ok u s) :
    (readInput β bookCfg hashRange logsInfo cfg now leftover clock input).run run = .ok () s.2.2 := by
  rw [readInput, EStateM.run_bind, EStateM.run_get]
  dsimp only
  rw [h]
  rfl

/-- The exception is handled exactly when the program stopped at its time. -/
theorem readInput_error {e : Failure} {s : ComputeBook Wire.StockT β × χ × Run}
    (h : (processInput β logsInfo cfg now leftover input).run
      (.make (ShortStringField.hashValue hashRange) bookCfg, clock, run) = .error e s) :
    (readInput β bookCfg hashRange logsInfo cfg now leftover clock input).run run =
      if s.2.2.aborted then .ok () s.2.2 else .error e s.2.2 := by
  rw [readInput, EStateM.run_bind, EStateM.run_get]
  dsimp only
  rw [h]
  cases haborted : s.2.2.aborted with
  | false =>
      simp only [haborted]
      rfl
  | true =>
      simp only [haborted]
      rfl

theorem readInput_eq_ok {u : Unit}
    (h : (readInput β bookCfg hashRange logsInfo cfg now leftover clock input).run run =
      .ok u run') :
    ∃ s, s.2.2 = run' ∧
      ((processInput β logsInfo cfg now leftover input).run
          (.make (ShortStringField.hashValue hashRange) bookCfg, clock, run) = .ok () s ∨
        run'.aborted = true ∧ ∃ e, (processInput β logsInfo cfg now leftover input).run
          (.make (ShortStringField.hashValue hashRange) bookCfg, clock, run) = .error e s) := by
  cases hrun : (processInput β logsInfo cfg now leftover input).run
      (.make (ShortStringField.hashValue hashRange) bookCfg, clock, run) with
  | ok v s =>
      rw [readInput_ok hrun] at h
      cases h
      exact ⟨s, rfl, Or.inl rfl⟩
  | error e s =>
      rw [readInput_error hrun] at h
      split_ifs at h with haborted
      cases h
      exact ⟨s, rfl, Or.inr ⟨haborted, e, rfl⟩⟩

/-- A program that returns prints the statistics that it accounted for. -/
theorem runInside_accounts (hstart : start cfg = .ok run) {rows : List String}
    (hrun : (runInside β bookCfg hashRange logsInfo cfg now leftover clock input).run run =
      .ok rows run') :
    (∃ samples, Accounts logsInfo cfg samples run') ∧ printStats run' = .ok rows := by
  have hinput : Fulfils (fun _ s => Running logsInfo cfg s.2.2) (fun _ s => Stopped logsInfo cfg s.2.2)
      ((processInput β logsInfo cfg now leftover input).run
        (.make (ShortStringField.hashValue hashRange) bookCfg, clock, run)) :=
    (processInput_meets now leftover input).fulfils _ (accounts_start hstart)
  obtain ⟨u, t, hread, hrest⟩ := run_bind_eq_ok hrun
  have haccounts : ∃ samples, Accounts logsInfo cfg samples t := by
    obtain ⟨s, rfl, hok | ⟨haborted, e, herror⟩⟩ := readInput_eq_ok hread
    · rw [hok] at hinput
      exact hinput.2
    · rw [herror] at hinput
      exact hinput haborted
  obtain ⟨samples, h⟩ := haccounts
  simp only [EStateM.run_bind, EStateM.run_get] at hrest
  cases hfinal : OfflineFeedStatistics.logFinalProgress logsInfo t.stats with
  | error e =>
      rw [hfinal] at hrest
      cases hrest
  | ok final =>
      rw [hfinal] at hrest
      cases hprint : printStats t with
      | error e =>
          rw [hprint] at hrest
          cases hrest
      | ok printed =>
          rw [hprint] at hrest
          cases hrest
          exact ⟨⟨samples, h.1, h.2, h.3, h.4⟩, hprint⟩

end Returns

end Whole

/-! ### The rows of the output -/

section Rows

variable {logsInfo : Bool} {cfg : Config} {run : Run}
  {samples : List (InsideLine (List UInt8) × Int)} {lines : List (InsideLine (List UInt8))}

/-- The timestamps of the lines do not decrease from midnight on. -/
structure InOrder (lines : List (InsideLine (List UInt8))) : Prop where
  nonneg : ∀ line ∈ lines, 0 ≤ line.timestamp
  sorted : lines.Pairwise fun a b => a.timestamp ≤ b.timestamp

/-- All lines are of one millisecond. -/
def OneMillisecond (lines : List (InsideLine (List UInt8))) : Prop :=
  ∀ a ∈ lines, ∀ b ∈ lines, a.timestamp.tdiv 1000000 = b.timestamp.tdiv 1000000

/-- The fields of a row after the name: one for each other field of the header, none with a comma. The
first is the number of the lines, or zero when there is one at most or they are all of one
millisecond. -/
structure RowFields (lines : List (InsideLine (List UInt8))) (fields : List String) : Prop where
  length : fields.length + 1 = OfflineFeedStatistics.csvHeader.length
  plain : ∀ f ∈ fields, ',' ∉ f.toList
  none : lines.length < 2 ∨ OneMillisecond lines → fields.head? = some "0"
  count : ¬ (lines.length < 2 ∨ OneMillisecond lines) → fields.head? = some (toString lines.length)

/-- A row of the CSV output. A reader finds its fields between the commas when the name has none. -/
def RowOf (name : String) (lines : List (InsideLine (List UInt8))) (row : String) : Prop :=
  ∃ fields, RowFields lines fields ∧ row = CommaLines.line (name :: fields) ∧
    (',' ∉ name.toList → CommaLines.fieldsOf row = (name :: fields).map String.toList)

/-- The timestamp and the latency of a line -/
def timing (i : InsideLine (List UInt8) × Int) : Int × Int := (i.1.timestamp, i.2)

theorem recordAll_append {samples : List (Int × Int)} {s t u : OfflineFeedStatistics}
    {reports later : List Report} {i : Int × Int}
    (h : (OfflineFeedStatistics.recordAll logsInfo samples).run s = .ok reports t)
    (hnext : (OfflineFeedStatistics.recordSample logsInfo i.1 i.2).run t = .ok later u) :
    ∃ all, (OfflineFeedStatistics.recordAll logsInfo (samples ++ [i])).run s = .ok all u := by
  induction samples generalizing s reports with
  | nil =>
      cases h
      refine ⟨later ++ [], ?_⟩
      simp only [List.nil_append, OfflineFeedStatistics.recordAll, EStateM.run_bind, hnext]
      rfl
  | cons j samples ih =>
      obtain ⟨first, s', hfirst, hrest⟩ := run_bind_eq_ok h
      obtain ⟨rest, t', hsamples, hreturn⟩ := run_bind_eq_ok hrest
      cases hreturn
      obtain ⟨all, hall⟩ := ih hsamples
      refine ⟨first ++ all, ?_⟩
      simp only [List.cons_append, OfflineFeedStatistics.recordAll, EStateM.run_bind, hfirst, hall]
      rfl

/-- Fresh statistics after some samples -/
theorem recordAll_of_after {statsCfg : OfflineFeedStatisticsConfig} {s : OfflineFeedStatistics}
    (h : After (OfflineFeedStatistics.make statsCfg) (sampleOf logsInfo) samples s) :
    ∃ s₀ reports, OfflineFeedStatistics.make statsCfg = .ok s₀ ∧
      (OfflineFeedStatistics.recordAll logsInfo (samples.map timing)).run s₀ = .ok reports s := by
  induction h with
  | start hmake => exact ⟨_, [], hmake, rfl⟩
  | @next is i x y a _ hrun ih =>
      obtain ⟨s₀, reports, hmake, hall⟩ := ih
      have hnext : (OfflineFeedStatistics.recordSample logsInfo (timing i).1 (timing i).2).run x =
        .ok a y := hrun
      rw [List.map_append, List.map_singleton]
      obtain ⟨all, happend⟩ := recordAll_append hall hnext
      exact ⟨s₀, all, hmake, happend⟩

/-- The row of statistics that were fresh before the samples of some lines. -/
theorem printCsv_of_after {statsCfg : OfflineFeedStatisticsConfig} (hcfg : statsCfg.validate = .ok ())
    (htypes : OfflineFeedStatistics.FitsTypes statsCfg) {s : OfflineFeedStatistics}
    (h : After (OfflineFeedStatistics.make statsCfg) (sampleOf logsInfo) samples s)
    (hlines : lines = samples.map Prod.fst) (horder : InOrder lines) (hfew : lines.length < 2147483648)
    (name : String) :
    ∃ row, OfflineFeedStatistics.printCsv name s = .ok row ∧ RowOf name lines row := by
  subst hlines
  obtain ⟨s₀, reports, hmake, hall⟩ := recordAll_of_after h
  have ho : OfflineFeedStatistics.Ordered (samples.map timing) := by
    obtain ⟨hnonneg, hsorted⟩ := horder
    rw [List.forall_mem_map] at hnonneg
    rw [List.pairwise_map] at hsorted
    exact ⟨List.forall_mem_map.2 hnonneg, List.pairwise_map.2 hsorted⟩
  have hfit : OfflineFeedStatistics.RatesFit (samples.map timing) :=
    OfflineFeedStatistics.ratesFit_of_length (by rwa [List.length_map] at hfew ⊢)
  obtain ⟨r, -, hr⟩ := OfflineFeedStatistics.recorded_of_recordAll hcfg htypes hmake ho hfit hall
  obtain ⟨fields, hprint, hlength, hplain, hnone, hcount⟩ := hr.csvRow_spec ho name
  have hsame : OfflineFeedStatistics.SamePeriod 1000000 (samples.map timing) ↔
      OneMillisecond (samples.map Prod.fst) := by
    constructor
    · intro h
      exact List.forall_mem_map.2 fun a ha => List.forall_mem_map.2 fun b hb =>
        h (timing a) (List.mem_map_of_mem ha) (timing b) (List.mem_map_of_mem hb)
    · intro h
      exact List.forall_mem_map.2 fun a ha => List.forall_mem_map.2 fun b hb =>
        h a.1 (List.mem_map_of_mem ha) b.1 (List.mem_map_of_mem hb)
  rw [List.length_map, hsame] at hnone hcount
  have hfields : RowFields (samples.map Prod.fst) fields := by
    refine ⟨hlength, hplain, fun h => ?_, fun h => ?_⟩
    · rw [List.length_map] at h
      exact hnone h
    · rw [List.length_map] at h ⊢
      exact hcount h
  refine ⟨CommaLines.line (name :: fields), OfflineFeedStatistics.printCsv_ok hprint, fields, hfields,
    rfl, fun hname => ?_⟩
  exact CommaLines.fieldsOf_line (List.cons_ne_nil name fields)
    (List.forall_mem_cons.2 ⟨hname, hplain⟩)

theorem mapM_ok {α β : Type} {f : α → Except Failure β} {P : α → β → Prop} {xs : List α}
    (h : ∀ x ∈ xs, ∃ y, f x = .ok y ∧ P x y) : ∃ ys, xs.mapM f = .ok ys ∧ List.Forall₂ P xs ys := by
  induction xs with
  | nil => exact ⟨[], rfl, .nil⟩
  | cons x xs ih =>
      rw [List.forall_mem_cons] at h
      obtain ⟨⟨y, hy, hP⟩, hrest⟩ := h
      obtain ⟨ys, hys, hall⟩ := ih hrest
      refine ⟨y :: ys, ?_, .cons hP hall⟩
      rw [List.mapM_cons, hy, hys]
      rfl

/-- The output of a program that has accounted for its lines. -/
theorem Accounts.rows (h : Accounts logsInfo cfg samples run) (hstats : cfg.stats.validate = .ok ())
    (hsymbols : cfg.symbolStats.validate = .ok ())
    (htypes : OfflineFeedStatistics.FitsTypes cfg.stats)
    (htypes' : OfflineFeedStatistics.FitsTypes cfg.symbolStats) (horder : InOrder run.out)
    (hfew : run.out.length < 2147483648) :
    ∃ symbolRows aggregate,
      printStats run = .ok (OfflineFeedStatistics.printCsvHeader :: symbolRows ++ [aggregate]) ∧
      List.Forall₂
        (fun name row => RowOf (nameString name) (run.out.filter fun line => line.stock = name) row)
        (run.perSymbol.entries.map Prod.fst) symbolRows ∧
      RowOf "__aggregate__" run.out aggregate := by
  have hentry : ∀ e ∈ run.perSymbol.entries, ∃ row,
      OfflineFeedStatistics.printCsv (nameString e.1) e.2 = .ok row ∧
        RowOf (nameString e.1) (run.out.filter fun line => line.stock = e.1) row := by
    intro e he
    have henable : cfg.enableSymbolStats = true := by
      by_contra hno
      rw [h.plain (Bool.eq_false_iff.2 hno)] at he
      exact absurd he List.not_mem_nil
    have hafter := (h.symbols henable).records e.1 e.2 (OrderedMap.find?_eq_some_iff.2 he)
    refine printCsv_of_after hsymbols htypes' hafter ?_ ?_ ?_ _
    · rw [h.lines, List.filter_map]
      rfl
    · exact ⟨fun line hline => horder.nonneg line (List.mem_of_mem_filter hline),
        horder.sorted.sublist List.filter_sublist⟩
    · exact lt_of_le_of_lt (List.length_filter_le _ _) hfew
  obtain ⟨symbolRows, hrows, hall⟩ := mapM_ok hentry
  obtain ⟨aggregate, hprint, hrow⟩ := printCsv_of_after hstats htypes h.stats h.lines horder hfew
    "__aggregate__"
  refine ⟨symbolRows, aggregate, ?_, List.forall₂_map_left_iff.2 hall, hrow⟩
  rw [printStats, hrows, hprint]
  rfl

/-- There are statistics exactly for the securities with a line, in the order of their names. -/
theorem Accounts.names (h : Accounts logsInfo cfg samples run) :
    (run.perSymbol.entries.map Prod.fst).Pairwise (· < ·) ∧
      ∀ name, name ∈ run.perSymbol.entries.map Prod.fst ↔
        cfg.enableSymbolStats = true ∧ ∃ line ∈ run.out, line.stock = name := by
  refine ⟨List.pairwise_map.2 run.perSymbol.sorted, fun name => ?_⟩
  cases henable : cfg.enableSymbolStats with
  | false =>
      rw [h.plain henable]
      simp [OrderedMap.empty]
  | true =>
      rw [(h.symbols henable).mem_keys_iff, h.lines]
      simp

end Rows

end InsideTool

end Itch5

end JayBeams
