import JayBeams.BookDepthStatistics
import JayBeams.Itch5.InsideEquivalence

/-!
# The depth of books and events

`itch5bookdepth` and `itch5eventdepth` build the books of a file and record a depth for each update: the
price levels between the worst and the best price on both sides of the book, or those between the
update and the inside. They print the quantiles of the depths, of all updates and by default of those of
each security.

Neither depth can raise for a map-based book, and no sample does, so a program fails exactly when a
message cannot be decoded or the books refuse it. Otherwise it prints the depths of the updates
(`depths_of_updates`). This is for configurations with vectors of counters that can be allocated
(`Config.Usable`), and fewer messages than the counters can count.
-/

set_option autoImplicit false

namespace JayBeams.Itch5

open Bytes Containers Machines Machines.Machine MoldUdpPacket

/-! ## The programs -/

namespace DepthTool

/-- `config` of the two programs, without that of the log -/
structure Config where
  inputFile : String
  outputFile : String
  stats : BookDepthStatisticsConfig
  symbolStats : BookDepthStatisticsConfig
  enableSymbolStats : Bool

namespace Config

/-- `default_per_symbol_stats` -/
def defaultPerSymbolStats : BookDepthStatisticsConfig := ⟨5000⟩

/-- The constructor -/
def default : Config := ⟨"", "stdout", .default, defaultPerSymbolStats, true⟩

/-- `validate` -/
def validate (cfg : Config) : Except Failure Unit := do
  InsideTool.Config.check (cfg.inputFile = "")
    "Missing input-file setting.  The program needs an input file to read ITCH-5.0 data from."
  InsideTool.Config.check (cfg.outputFile = "")
    "Missing output-file setting.  Use 'stdout' if you want to print to the standard output."
  cfg.stats.validate
  cfg.symbolStats.validate

/-- A valid configuration, and vectors can have the counters of both statistics. -/
structure Usable (cfg : Config) : Prop where
  valid : cfg.validate = .ok ()
  stats : cfg.stats.maxBookDepth.toNat ≤ Histogram.maxCounters 4
  symbolStats : cfg.symbolStats.maxBookDepth.toNat ≤ Histogram.maxCounters 4

end Config

section Depths

variable {κ : Type} {β : Side → Type} [BookType β]

/-- The depth that `record_book_depth` records -/
def bookDepth (call : Callback κ β) : Except Failure UInt64 := do
  let worstBid ← call.updatedBook.worstBid
  let bestBid ← call.updatedBook.bestBid
  let buyPriceLevels ← priceLevels price4 worstBid.px bestBid.px
  let bestOffer ← call.updatedBook.bestOffer
  let worstOffer ← call.updatedBook.worstOffer
  let sellPriceLevels ← priceLevels price4 bestOffer.px worstOffer.px
  return UInt64.ofNat buyPriceLevels + UInt64.ofNat sellPriceLevels

/-- The depth that `record_event_depth` records, which is an `int` in between -/
def eventDepth (call : Callback κ β) : Except Failure UInt64 := do
  let px := call.update.px
  match call.update.buySellIndicator with
  | .buy =>
      let best ← call.updatedBook.bestBid
      if px < best.px then
        let depth ← priceLevels price4 px best.px
        return UInt64.ofInt (int32 depth)
      return 0
  | .sell =>
      let best ← call.updatedBook.bestOffer
      if px > best.px then
        let depth ← priceLevels price4 best.px px
        return UInt64.ofInt (int32 depth)
      return 0

/-- `record_book_depth` and `record_event_depth` -/
def record (depth : Callback κ β → Except Failure UInt64) (call : Callback κ β) :
    EStateM Failure BookDepthStatistics Unit := do
  BookDepthStatistics.sample (← liftExcept (depth call))

end Depths

/-- What a program keeps while it reads its input: the statistics of all updates, and those of each
security. -/
structure Run where
  stats : BookDepthStatistics
  perSymbol : OrderedMap (List UInt8) BookDepthStatistics (· < ·)

section Program

variable {χ : Type} (depth : Callback Wire.StockT MapBasedBookSide → Except Failure UInt64)

/-- The callback of the books; with statistics for each security, or without -/
def callback (cfg : Config) (call : Callback Wire.StockT MapBasedBookSide) :
    EStateM Failure Run Unit := do
  onPart Run.stats (fun stats run => { run with stats := stats }) (record depth call)
  if cfg.enableSymbolStats then
    onPart Run.perSymbol (fun perSymbol run => { run with perSymbol := perSymbol })
      (OrderedMap.onEntry (BookDepthStatistics.make cfg.symbolStats) call.update.stock.cStr
        (record depth call))

/-- The rows of the CSV output, after the header: the securities in the order of their names, and all
updates -/
def printStats (run : Run) : Except Failure (List String) := do
  let rows ← run.perSymbol.entries.mapM fun e =>
    BookDepthStatistics.printCsv (InsideTool.nameString e.1) e.2
  let aggregate ← BookDepthStatistics.printCsv "__aggregate__" run.stats
  return BookDepthStatistics.printCsvHeader :: rows ++ [aggregate]

/-- No counter of the statistics has overflowed. -/
structure Run.CountersWithin (run : Run) : Prop where
  stats : run.stats.bookDepth.CountersWithin (2 ^ 32 - 1)
  perSymbol : ∀ e ∈ run.perSymbol.entries, e.2.bookDepth.CountersWithin (2 ^ 32 - 1)

/-- The statistics at the start -/
def start (cfg : Config) : Except Failure Run := do
  let stats ← BookDepthStatistics.make cfg.stats
  return ⟨stats, .empty⟩

/-- `process_iostream` with the books that report to the callback -/
def processInput (cfg : Config) (now : EStateM Failure χ Int) (leftover : IStream → Memory)
    (input : List UInt8) :
    EStateM Failure (ComputeBook Wire.StockT MapBasedBookSide × χ × Run) Unit :=
  processIostreamMlist Wire.knownItch5Messages
    (ComputeBook.messageHandler (onFst now) fun call => onSnd (callback depth cfg call)) leftover 0 0
    (.ofBytes input)

/-- `main`, after the configuration is loaded and the statistics are constructed; the result is the CSV
output. -/
def main (hashRange : List UInt8 → UInt64) (cfg : Config) (now : EStateM Failure χ Int)
    (leftover : IStream → Memory) (clock : χ) (input : List UInt8) :
    EStateM Failure Run (List String) := do
  let run ← get
  match (processInput depth cfg now leftover input).run
      (.make (ShortStringField.hashValue hashRange) (), clock, run) with
  | .ok _ s => set s.2.2
  | .error e s => do
      set s.2.2
      throw e
  let run ← get
  liftExcept (printStats run)

end Program

/-- The program `itch5bookdepth` -/
def itch5bookdepth {χ : Type} := main (χ := χ) bookDepth

/-- The program `itch5eventdepth` -/
def itch5eventdepth {χ : Type} := main (χ := χ) eventDepth

/-! ## The depths -/

section Returns

theorem priceLevels_returns (t : PriceType) {lo hi : Nat} (h : lo ≤ hi) :
    ∃ levels, priceLevels t lo hi = .ok levels := by
  have hone : ∀ depth lo hi, lo ≤ hi → (dollarPrice t ≤ lo ∨ hi ≤ dollarPrice t) →
      ∃ levels, priceLevelsRec t (depth + 1) lo hi = .ok levels := by
    intro depth lo hi hle hside
    rw [priceLevelsRec, if_neg (Nat.not_lt.2 hle)]
    by_cases hlo : dollarPrice t ≤ lo
    · exact ⟨_, if_pos hlo⟩
    · rw [if_neg hlo, if_pos (hside.resolve_left hlo)]
      exact ⟨_, rfl⟩
  by_cases hside : dollarPrice t ≤ lo ∨ hi ≤ dollarPrice t
  · exact hone 1 lo hi h hside
  · obtain ⟨hlo, hhi⟩ := not_or.1 hside
    rw [priceLevels, priceLevelsRec, if_neg (Nat.not_lt.2 h), if_neg hlo, if_neg hhi]
    split
    · exact ⟨_, rfl⟩
    · obtain ⟨below, hbelow⟩ := hone 0 lo (dollarPrice t) (Nat.le_of_not_le hlo) (Or.inr le_rfl)
      obtain ⟨above, habove⟩ := hone 0 (dollarPrice t) hi (Nat.le_of_not_le hhi) (Or.inl le_rfl)
      rw [hbelow, habove]
      exact ⟨_, rfl⟩

/-- The worst price of a side is not better than its best one, also when the side is empty. -/
theorem not_better_worstQuote {s : Side} (b : MapBasedBookSide s) :
    ¬ s.Better b.worstQuote.px b.bestQuote.px := by
  rw [MapBasedBookSide.worstQuote, MapBasedBookSide.bestQuote]
  cases hfirst : b.levels.first? with
  | none =>
      have hlast : b.levels.last? = none :=
        OrderedMap.last?_eq_none_iff.2 (OrderedMap.first?_eq_none_iff.1 hfirst)
      rw [hlast]
      exact Side.not_better_self s _
  | some best =>
      cases hlast : b.levels.last? with
      | none =>
          rw [OrderedMap.first?_eq_none_iff.2 (OrderedMap.last?_eq_none_iff.1 hlast)] at hfirst
          cases hfirst
      | some worst =>
          obtain ⟨-, hleast⟩ := OrderedMap.first?_eq_some_iff.1 hfirst
          obtain ⟨hfind, -⟩ := OrderedMap.last?_eq_some_iff.1 hlast
          by_cases heq : worst.1 = best.1
          · show ¬ s.Better worst.1 best.1
            rw [heq]
            exact Side.not_better_self s _
          · exact Side.better_asymm (hleast worst.1 heq (by rw [hfind]; exact Option.some_ne_none _))

/-- A depth that can be told for every update of a map-based book, whenever it was received -/
structure Measures (depth : Callback Wire.StockT MapBasedBookSide → Except Failure UInt64) : Prop where
  returns : ∀ call, ∃ d, depth call = .ok d
  blind : ∀ (call : Callback Wire.StockT MapBasedBookSide) recvts,
    depth (call.receivedAt recvts) = depth call

theorem measures_bookDepth : Measures bookDepth where
  returns call := by
    have hbuy : call.updatedBook.buy.worstQuote.px ≤ call.updatedBook.buy.bestQuote.px :=
      Nat.not_lt.1 (not_better_worstQuote call.updatedBook.buy)
    have hsell : call.updatedBook.sell.bestQuote.px ≤ call.updatedBook.sell.worstQuote.px :=
      Nat.not_lt.1 (not_better_worstQuote call.updatedBook.sell)
    obtain ⟨buy, hbuyLevels⟩ := priceLevels_returns price4 hbuy
    obtain ⟨sell, hsellLevels⟩ := priceLevels_returns price4 hsell
    refine ⟨UInt64.ofNat buy + UInt64.ofNat sell, ?_⟩
    show (do
      let buyPriceLevels ← priceLevels price4 call.updatedBook.buy.worstQuote.px
        call.updatedBook.buy.bestQuote.px
      let sellPriceLevels ← priceLevels price4 call.updatedBook.sell.bestQuote.px
        call.updatedBook.sell.worstQuote.px
      return UInt64.ofNat buyPriceLevels + UInt64.ofNat sellPriceLevels) = _
    rw [hbuyLevels, hsellLevels]
    rfl
  blind _ _ := rfl

/-- The levels between two prices, when they are in order. -/
theorem levelsBetween_returns (lo hi : Nat) :
    ∃ d, (if lo < hi then do
        let depth ← priceLevels price4 lo hi
        return UInt64.ofInt (int32 depth)
      else return 0 : Except Failure UInt64) = .ok d := by
  split
  · next hlt =>
      obtain ⟨levels, hlevels⟩ := priceLevels_returns price4 (Nat.le_of_lt hlt)
      rw [hlevels]
      exact ⟨_, rfl⟩
  · exact ⟨0, rfl⟩

theorem measures_eventDepth : Measures eventDepth where
  returns call := by
    rw [eventDepth]
    cases call.update.buySellIndicator with
    | buy => exact levelsBetween_returns call.update.px call.updatedBook.buy.bestQuote.px
    | sell => exact levelsBetween_returns call.updatedBook.sell.bestQuote.px call.update.px
  blind _ _ := rfl

end Returns

/-! ## The updates that were recorded -/

section Accounts

variable {depth : Callback Wire.StockT MapBasedBookSide → Except Failure UInt64} {cfg : Config}
  {run run' : Run} {calls : List (Callback Wire.StockT MapBasedBookSide)}

/-- The name of the security of an update -/
def nameOf (call : Callback Wire.StockT MapBasedBookSide) : List UInt8 := call.update.stock.cStr

/-- The statistics are those of some updates, all of them and those of each security. -/
structure Accounts (depth : Callback Wire.StockT MapBasedBookSide → Except Failure UInt64)
    (cfg : Config) (calls : List (Callback Wire.StockT MapBasedBookSide)) (run : Run) : Prop where
  stats : After (BookDepthStatistics.make cfg.stats) (record depth) calls run.stats
  symbols : cfg.enableSymbolStats = true → OrderedMap.Grouped
    (BookDepthStatistics.make cfg.symbolStats) (record depth) nameOf calls run.perSymbol
  plain : cfg.enableSymbolStats = false → run.perSymbol = .empty

/-- The depths of updates, in their order -/
def DepthsOf (depth : Callback Wire.StockT MapBasedBookSide → Except Failure UInt64)
    (calls : List (Callback Wire.StockT MapBasedBookSide)) (depths : List UInt64) : Prop :=
  List.Forall₂ (fun call d => depth call = .ok d) calls depths

theorem record_run {call : Callback Wire.StockT MapBasedBookSide} {d : UInt64}
    (h : depth call = .ok d) : record depth call = BookDepthStatistics.sample d := by
  rw [record, h]
  rfl

/-- Statistics made from updates have recorded their depths. -/
theorem recorded_of_after (hdepth : Measures depth) {statsCfg : BookDepthStatisticsConfig}
    (hcfg : statsCfg.Usable) {s : BookDepthStatistics}
    (h : After (BookDepthStatistics.make statsCfg) (record depth) calls s) :
    ∃ depths, DepthsOf depth calls depths ∧ BookDepthStatistics.Recorded statsCfg depths s := by
  induction h with
  | @start s hmake =>
      obtain ⟨t, ht, hrecorded⟩ := BookDepthStatistics.make_returns hcfg
      rw [ht] at hmake
      exact ⟨[], .nil, Except.ok.inj hmake ▸ hrecorded⟩
  | @next calls call x y u _ hrun ih =>
      obtain ⟨depths, hdepths, hrecorded⟩ := ih
      obtain ⟨d, hd⟩ := hdepth.returns call
      rw [record_run hd] at hrun
      exact ⟨depths ++ [d], List.rel_append hdepths (.cons hd .nil), hrecorded.of_sample hrun⟩

/-- An update is recorded in statistics made from others. -/
theorem record_returns (hdepth : Measures depth) {statsCfg : BookDepthStatisticsConfig}
    (hcfg : statsCfg.Usable) {s : BookDepthStatistics}
    (h : After (BookDepthStatistics.make statsCfg) (record depth) calls s)
    (call : Callback Wire.StockT MapBasedBookSide) :
    ∃ s', (record depth call).run s = .ok () s' ∧
      After (BookDepthStatistics.make statsCfg) (record depth) (calls ++ [call]) s' := by
  obtain ⟨depths, -, hrecorded⟩ := recorded_of_after hdepth hcfg h
  obtain ⟨d, hd⟩ := hdepth.returns call
  obtain ⟨s', hrun, -⟩ := hrecorded.sample_returns d
  have hrecord : (record depth call).run s = .ok () s' := by
    rw [record_run hd]
    exact hrun
  exact ⟨s', hrecord, h.next hrecord⟩

/-- The callback returns, and has accounted for the update. -/
theorem Accounts.callback_returns (h : Accounts depth cfg calls run) (hdepth : Measures depth)
    (hstats : cfg.stats.Usable) (hsymbols : cfg.symbolStats.Usable)
    (call : Callback Wire.StockT MapBasedBookSide) :
    ∃ run', (callback depth cfg call).run run = .ok () run' ∧
      Accounts depth cfg (calls ++ [call]) run' := by
  obtain ⟨stats, hrecord, hafter⟩ := record_returns hdepth hstats h.stats call
  have hfirst := onPart_run_ok Run.stats (fun stats run => { run with stats := stats }) hrecord
  rw [callback, EStateM.run_bind, hfirst]
  cases henable : cfg.enableSymbolStats with
  | false =>
      refine ⟨_, rfl, hafter, fun hyes => ?_, h.plain⟩
      rw [henable] at hyes
      cases hyes
  | true =>
      have hgrouped := h.symbols henable
      obtain ⟨fresh, hmake, -⟩ := BookDepthStatistics.make_returns hsymbols
      obtain ⟨u, perSymbol, hentry, -⟩ := OrderedMap.onEntry_returns
        (P := fun s => ∃ calls, After (BookDepthStatistics.make cfg.symbolStats) (record depth) calls s)
        (m := run.perSymbol) ⟨fresh, hmake, [], .start hmake⟩
        (fun s ⟨calls, hs⟩ => by
          obtain ⟨s', hrun, hs'⟩ := record_returns hdepth hsymbols hs call
          exact ⟨(), s', hrun, calls ++ [call], hs'⟩)
        (fun _ hs => hs) (nameOf call) fun name s hs => ⟨_, hgrouped.records name s hs⟩
      have hsecond := onPart_run_ok Run.perSymbol
        (fun perSymbol run => { run with perSymbol := perSymbol }) (s := { run with stats := stats })
        hentry
      refine ⟨{ stats := stats, perSymbol := perSymbol }, ?_, hafter, fun _ => ?_, fun hno => ?_⟩
      · simp only [if_true]
        exact hsecond
      · exact hgrouped.onEntry hentry
      · rw [henable] at hno
        cases hno

end Accounts

/-! ## The rows of the output -/

section Report

variable {depth : Callback Wire.StockT MapBasedBookSide → Except Failure UInt64} {cfg : Config}
  {run : Run} {calls : List (Callback Wire.StockT MapBasedBookSide)}

/-- The output about some updates: a row for each security that has one, in the order of the names, and
the row of them all. -/
def Report (depth : Callback Wire.StockT MapBasedBookSide → Except Failure UInt64) (cfg : Config)
    (calls : List (Callback Wire.StockT MapBasedBookSide)) (rows : List String) : Prop :=
  ∃ names symbolRows aggregate depths, names.Pairwise (· < ·) ∧
    (∀ name, name ∈ names ↔ cfg.enableSymbolStats = true ∧ ∃ call ∈ calls, nameOf call = name) ∧
    rows = BookDepthStatistics.printCsvHeader :: symbolRows ++ [aggregate] ∧
    List.Forall₂ (fun name row => ∃ depths,
        DepthsOf depth (calls.filter fun call => nameOf call = name) depths ∧
          BookDepthStatistics.RowOf cfg.symbolStats (InsideTool.nameString name) depths row)
      names symbolRows ∧
    DepthsOf depth calls depths ∧
    BookDepthStatistics.RowOf cfg.stats "__aggregate__" depths aggregate

/-- There are statistics exactly for the securities with an update. -/
theorem Accounts.names (h : Accounts depth cfg calls run) (name : List UInt8) :
    name ∈ run.perSymbol.entries.map Prod.fst ↔
      cfg.enableSymbolStats = true ∧ ∃ call ∈ calls, nameOf call = name := by
  cases henable : cfg.enableSymbolStats with
  | false =>
      rw [h.plain henable]
      simp [OrderedMap.empty]
  | true =>
      rw [(h.symbols henable).mem_keys_iff]
      simp

theorem Accounts.report (h : Accounts depth cfg calls run) (hdepth : Measures depth)
    (hstats : cfg.stats.Usable) (hsymbols : cfg.symbolStats.Usable) :
    ∃ rows, printStats run = .ok rows ∧ Report depth cfg calls rows := by
  have hentry : ∀ e ∈ run.perSymbol.entries, ∃ row,
      BookDepthStatistics.printCsv (InsideTool.nameString e.1) e.2 = .ok row ∧
        ∃ depths, DepthsOf depth (calls.filter fun call => nameOf call = e.1) depths ∧
          BookDepthStatistics.RowOf cfg.symbolStats (InsideTool.nameString e.1) depths row := by
    intro e he
    have henable : cfg.enableSymbolStats = true :=
      ((h.names e.1).1 (List.mem_map_of_mem he)).1
    have hafter := (h.symbols henable).records e.1 e.2 (OrderedMap.find?_eq_some_iff.2 he)
    obtain ⟨depths, hdepths, hrecorded⟩ := recorded_of_after hdepth hsymbols hafter
    obtain ⟨row, hprint, hrow⟩ := hrecorded.printCsv_row (InsideTool.nameString e.1)
    exact ⟨row, hprint, depths, hdepths, hrow⟩
  obtain ⟨symbolRows, hrows, hall⟩ := InsideTool.mapM_ok hentry
  obtain ⟨depths, hdepths, hrecorded⟩ := recorded_of_after hdepth hstats h.stats
  obtain ⟨aggregate, hprint, hrow⟩ := hrecorded.printCsv_row "__aggregate__"
  refine ⟨BookDepthStatistics.printCsvHeader :: symbolRows ++ [aggregate], ?_,
    run.perSymbol.entries.map Prod.fst, symbolRows, aggregate, depths,
    List.pairwise_map.2 run.perSymbol.sorted, h.names, rfl, List.forall₂_map_left_iff.2 hall, hdepths,
    hrow⟩
  rw [printStats, hrows, hprint]
  rfl

/-- The counters are enough for the updates. -/
theorem Accounts.countersWithin (h : Accounts depth cfg calls run) (hdepth : Measures depth)
    (hstats : cfg.stats.Usable) (hsymbols : cfg.symbolStats.Usable) (hfew : calls.length < 2 ^ 32) :
    run.CountersWithin := by
  constructor
  · obtain ⟨depths, hdepths, hrecorded⟩ := recorded_of_after hdepth hstats h.stats
    apply hrecorded.countersWithin
    rwa [← hdepths.length_eq]
  · intro e he
    have henable : cfg.enableSymbolStats = true :=
      ((h.names e.1).1 (List.mem_map_of_mem he)).1
    have hafter := (h.symbols henable).records e.1 e.2 (OrderedMap.find?_eq_some_iff.2 he)
    obtain ⟨depths, hdepths, hrecorded⟩ := recorded_of_after hdepth hsymbols hafter
    apply hrecorded.countersWithin
    rw [← hdepths.length_eq]
    exact (List.length_filter_le _ _).trans_lt hfew

end Report

/-! ## The updates of a file -/

section Updates

open ComputeBook (handleRecords SameCallbacks QuietClock)

variable {χ : Type} {depth : Callback Wire.StockT MapBasedBookSide → Except Failure UInt64}
  {cfg : Config} {now : EStateM Failure χ Int} {run : Run} {messages : List (List UInt8)}

/-- A callback that keeps the updates. -/
def keepUpdate (call : Callback Wire.StockT MapBasedBookSide) :
    EStateM Failure (List (Callback Wire.StockT MapBasedBookSide)) Unit :=
  modify fun calls => calls ++ [call]

/-- The updates of some messages, by the books alone -/
def updates (hashRange : List UInt8 → UInt64) (messages : List (List UInt8)) :
    EStateM.Result Failure (ComputeBook Wire.StockT MapBasedBookSide ×
      List (Callback Wire.StockT MapBasedBookSide)) Unit :=
  (handleRecords keepUpdate messages).run (.make (ShortStringField.hashValue hashRange) (), [])

theorem Config.Usable.both (h : cfg.Usable) : cfg.stats.Usable ∧ cfg.symbolStats.Usable := by
  obtain ⟨hvalid, hsize, hsymbolSize⟩ := h
  obtain ⟨-, -, hvalid⟩ := exists_of_bind_eq_ok hvalid
  obtain ⟨-, -, hvalid⟩ := exists_of_bind_eq_ok hvalid
  obtain ⟨_, hstats, hsymbols⟩ := exists_of_bind_eq_ok hvalid
  exact ⟨⟨hstats, hsize⟩, hsymbols, hsymbolSize⟩

/-- There are at most as many updates as messages. -/
theorem length_updates {hashRange : List UInt8 → UInt64} {u : Unit}
    {s : ComputeBook Wire.StockT MapBasedBookSide × List (Callback Wire.StockT MapBasedBookSide)}
    (h : updates hashRange messages = .ok u s) : s.2.length ≤ messages.length := by
  have hkeep : ∀ (n : Nat) call, Meets (fun calls => calls.length ≤ n) (keepUpdate call)
      (fun _ calls => calls.length ≤ n + 1) (fun _ _ => True) := by
    intro n call
    apply Meets.modify
    intro calls hle
    rw [List.length_append]
    exact Nat.add_le_add_right hle 1
  have hmeets := ComputeBook.handleRecords_meets hkeep (fun n calls hle => Nat.le_succ_of_le hle)
    (fun _ _ _ _ => trivial) messages 0
  have hend := hmeets.fulfils (.make (ShortStringField.hashValue hashRange) (), []) le_rfl
  change Fulfils _ _ (updates hashRange messages) at hend
  rw [h, Nat.zero_add] at hend
  exact hend

theorem callback_receivedAt (hdepth : Measures depth) (call : Callback Wire.StockT MapBasedBookSide)
    (recvts : Int) : callback depth cfg (call.receivedAt recvts) = callback depth cfg call := by
  have hrecord : record depth (call.receivedAt recvts) = record depth call := by
    rw [record, hdepth.blind]
    rfl
  rw [callback, hrecord]
  rfl

/-- Each update is accounted for. -/
theorem callback_simulates (hdepth : Measures depth) (hcfg : cfg.Usable) :
    SameCallbacks (fun (s : χ × Run) calls => Accounts depth cfg calls s.2)
      (fun call => onSnd (callback depth cfg call)) keepUpdate := by
  intro call recvts recvts'
  constructor
  rintro ⟨c, run⟩ calls h
  obtain ⟨hstats, hsymbols⟩ := hcfg.both
  obtain ⟨run', hrun, haccounts⟩ := h.callback_returns hdepth hstats hsymbols (call.receivedAt recvts')
  rw [callback_receivedAt hdepth] at hrun
  have hfirst : (onSnd (callback depth cfg (call.receivedAt recvts))).run (c, run) =
      .ok () (c, run') := by
    rw [callback_receivedAt hdepth]
    exact onSnd_run_ok hrun
  rw [hfirst]
  exact ⟨trivial, haccounts⟩

theorem accounts_start (h : start cfg = .ok run) : Accounts depth cfg [] run := by
  rw [start] at h
  cases hmake : BookDepthStatistics.make cfg.stats with
  | error e =>
      rw [hmake] at h
      cases h
  | ok stats =>
      rw [hmake] at h
      cases h
      exact ⟨.start hmake, fun _ => .empty, fun _ => rfl⟩

/-- The program fails with the books, or it reports the depths of the updates, and no counter has
overflowed. -/
def ReportsDepths (depth : Callback Wire.StockT MapBasedBookSide → Except Failure UInt64) (cfg : Config)
    (result : EStateM.Result Failure Run (List String)) :
    EStateM.Result Failure (ComputeBook Wire.StockT MapBasedBookSide ×
      List (Callback Wire.StockT MapBasedBookSide)) Unit → Prop
  | .ok _ s => ∃ rows run', result = .ok rows run' ∧ Report depth cfg s.2 rows ∧ run'.CountersWithin
  | .error e _ => ∃ e' run', result = .error e' run' ∧ e'.exceptionClass = e.exceptionClass

theorem main_reportsDepths (hdepth : Measures depth) (hashRange : List UInt8 → UInt64)
    (hcfg : cfg.Usable) (hnow : InsideTool.Ticks now) (leftover : IStream → Memory) (clock : χ)
    (hmessages : ∀ message ∈ messages, message.length < 65536 ∧ Wire.Decisive message)
    (hfew : messages.length < 2 ^ 32) (hstart : start cfg = .ok run) :
    ReportsDepths depth cfg
      ((main depth hashRange cfg now leftover clock (encodeBlocks messages)).run run)
      (updates hashRange messages) := by
  have hclock : QuietClock (fun (s : χ × Run) calls => Accounts depth cfg calls s.2) (onFst now) := by
    intro s calls h
    obtain ⟨t, c, hread⟩ := hnow s.1
    exact ⟨t, (c, s.2), onFst_run_ok hread, h⟩
  have hends := (ComputeBook.processIostream_simulates (callback_simulates hdepth hcfg) hclock leftover
    hmessages 0 0).ends (.make (ShortStringField.hashValue hashRange) (), clock, run)
    (.make (ShortStringField.hashValue hashRange) (), []) ⟨rfl, accounts_start hstart⟩
  change Ends _ _ _ ((processInput depth cfg now leftover (encodeBlocks messages)).run _)
    (updates hashRange messages) at hends
  cases hinput : (processInput depth cfg now leftover (encodeBlocks messages)).run
      (.make (ShortStringField.hashValue hashRange) (), clock, run) with
  | error e s =>
      rw [hinput] at hends
      cases hupdates : updates hashRange messages with
      | ok u t =>
          rw [hupdates] at hends
          exact hends.elim
      | error e' t =>
          rw [hupdates] at hends
          refine ⟨e, s.2.2, ?_, hends.1⟩
          simp only [main, EStateM.run_bind, EStateM.run_get, hinput]
          rfl
  | ok u s =>
      rw [hinput] at hends
      cases hupdates : updates hashRange messages with
      | error e t =>
          rw [hupdates] at hends
          exact hends.elim
      | ok v t =>
          rw [hupdates] at hends
          obtain ⟨hstats, hsymbols⟩ := hcfg.both
          obtain ⟨rows, hrows, hreport⟩ := hends.2.2.report hdepth hstats hsymbols
          refine ⟨rows, s.2.2, ?_, hreport, hends.2.2.countersWithin hdepth hstats hsymbols ?_⟩
          · simp only [main, EStateM.run_bind, EStateM.run_get, hinput, EStateM.run_set]
            exact liftExcept_run_ok hrows _
          · exact (length_updates hupdates).trans_lt hfew

/-- Both programs fail exactly when the books fail to handle the messages of the file. Otherwise each
prints what it recorded of every update: a row for each security that has one, and a row for all. The
counters of the depths are enough for fewer than 2^32 messages. -/
theorem depths_of_updates (hashRange : List UInt8 → UInt64) (hcfg : cfg.Usable)
    (hnow : InsideTool.Ticks now) (leftover : IStream → Memory) (clock : χ)
    (hmessages : ∀ message ∈ messages, message.length < 65536 ∧ Wire.Decisive message)
    (hfew : messages.length < 2 ^ 32) (hstart : start cfg = .ok run) :
    ReportsDepths bookDepth cfg
        ((itch5bookdepth hashRange cfg now leftover clock (encodeBlocks messages)).run run)
        (updates hashRange messages) ∧
      ReportsDepths eventDepth cfg
        ((itch5eventdepth hashRange cfg now leftover clock (encodeBlocks messages)).run run)
        (updates hashRange messages) :=
  ⟨main_reportsDepths measures_bookDepth hashRange hcfg hnow leftover clock hmessages hfew hstart,
    main_reportsDepths measures_eventDepth hashRange hcfg hnow leftover clock hmessages hfew hstart⟩

theorem depths_of_updates_two_orders : ∃ run,
    start { Config.default with inputFile := "in.gz" } = .ok run ∧
    ReportsDepths bookDepth { Config.default with inputFile := "in.gz" }
        ((itch5bookdepth (fun _ => 0) { Config.default with inputFile := "in.gz" } InsideTool.steady
          (fun _ _ => 0) () (encodeBlocks [buyOrder 1, buyOrder 2])).run run)
        (updates (fun _ => 0) [buyOrder 1, buyOrder 2]) ∧
      ReportsDepths eventDepth { Config.default with inputFile := "in.gz" }
        ((itch5eventdepth (fun _ => 0) { Config.default with inputFile := "in.gz" } InsideTool.steady
          (fun _ _ => 0) () (encodeBlocks [buyOrder 1, buyOrder 2])).run run)
        (updates (fun _ => 0) [buyOrder 1, buyOrder 2]) := by
  obtain ⟨stats, hmake, -⟩ := BookDepthStatistics.make_returns BookDepthStatisticsConfig.usable_default
  have hstart : start { Config.default with inputFile := "in.gz" } = .ok ⟨stats, .empty⟩ := by
    show (do
      let stats ← BookDepthStatistics.make .default
      return (⟨stats, .empty⟩ : Run)) = _
    rw [hmake]
    rfl
  exact ⟨_, hstart, depths_of_updates (fun _ => 0) ⟨rfl, by decide, by decide⟩ InsideTool.steady_ticks
    (fun _ _ => 0) () InsideTool.twoOrders_decisive (by decide) hstart⟩

end Updates

end DepthTool

end JayBeams.Itch5
