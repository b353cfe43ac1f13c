import JayBeams.Itch5.BookFeed
import JayBeams.Itch5.GenerateInside
import JayBeams.Library.KeyedRecords
import JayBeams.OfflineFeedStatistics

/-!
# The inside of a file

`itch5inside` builds the books of a file and writes a line for each update that `generate_inside`
reports. It keeps the statistics of all these updates and, when it is asked to, those of each security,
and prints them at the end as CSV. The keys of the statistics are compared as the strings in the fields
of the securities, so they are these strings here.

The program is done with its input at the end of the file, or at the first update at or after the time
given by `stop_after_seconds`. The exception that ends the loop then is told from all others by a flag of
the run.
-/

set_option autoImplicit false

namespace JayBeams

open Bytes Machines Machines.Machine Containers

instance instStrictTotalOrderBytes : IsStrictTotalOrder (List UInt8) (· < ·) where
  trichotomous a b := by
    intro hab hba
    exact List.le_antisymm (List.not_lt.1 hba) (List.not_lt.1 hab)
  irrefl := List.lt_irrefl
  trans _ _ _ := List.lt_trans

namespace Itch5

namespace InsideTool

/-- `config`, without the configuration of the log -/
structure Config where
  inputFile : String
  outputFile : String
  stats : OfflineFeedStatisticsConfig
  symbolStats : OfflineFeedStatisticsConfig
  enableSymbolStats : Bool
  enableArrayBased : Bool
  bookCfg : ArrayBasedConfig
  stopAfterSeconds : Int

namespace Config

/-- `default_per_symbol_stats` -/
def defaultPerSymbolStats : OfflineFeedStatisticsConfig := ⟨10000, 10000, 1000, 10000, 10000, 24 * 3600⟩

/-- The constructor -/
def default : Config := ⟨"", "", .default, defaultPerSymbolStats, false, false, .default, 0⟩

/-- One of the checks of `validate` -/
def check (wrong : Prop) [Decidable wrong] (what : String) : Except Failure Unit :=
  if wrong then .error (.usage what 1) else .ok ()

/-- `validate` -/
def validate (cfg : Config) : Except Failure Unit := do
  check (cfg.inputFile = "") "Missing input-file setting.  You must specify an input file."
  check (cfg.outputFile = "") "Missing output-file setting.  You must specify an output file."
  check (cfg.stopAfterSeconds < 0) "The stop-after-seconds must be >= 0"
  cfg.stats.validate
  cfg.symbolStats.validate
  check (cfg.bookCfg.validate = false)
    ("max-size option must be > 0, value=" ++ toString cfg.bookCfg.maxSize)

end Config

theorem Config.validate_ok {cfg : Config} (h : cfg.validate = .ok ()) :
    cfg.stats.validate = .ok () ∧ cfg.symbolStats.validate = .ok () := by
  obtain ⟨-, -, h⟩ := exists_of_bind_eq_ok h
  obtain ⟨-, -, h⟩ := exists_of_bind_eq_ok h
  obtain ⟨-, -, h⟩ := exists_of_bind_eq_ok h
  obtain ⟨_, hstats, h⟩ := exists_of_bind_eq_ok h
  obtain ⟨_, hsymbols, -⟩ := exists_of_bind_eq_ok h
  exact ⟨hstats, hsymbols⟩

/-- What the program keeps while it reads its input: the statistics and what they logged, the lines
written, the statistics of each security, and whether it stops before the end of the input. -/
structure Run where
  stats : OfflineFeedStatistics
  log : List Report
  out : List (InsideLine (List UInt8))
  perSymbol : OrderedMap (List UInt8) OfflineFeedStatistics (· < ·)
  aborted : Bool

section Callback

variable {β : Side → Type} [BookType β]

/-- `offline_feed_statistics::sample` of the statistics of all updates -/
def sample (logsInfo : Bool) (ts pl : Int) : EStateM Failure Run Unit := do
  let reports ← onPart Run.stats (fun stats run => { run with stats := stats })
    (OfflineFeedStatistics.recordSample logsInfo ts pl)
  modify fun run => { run with log := run.log ++ reports }

/-- `record_latency_stats` -/
def recordLatencyStats (logsInfo : Bool) (call : Callback Wire.StockT β) (pl : Int) :
    EStateM Failure Run Bool := do
  let update := call.update
  match update.buySellIndicator with
  | .buy =>
      let best ← liftExcept call.updatedBook.bestBid
      if (¬ update.cxlreplx ∧ update.px ≥ best.px) ∨ (update.cxlreplx ∧ update.oldpx ≥ best.px) then
        sample logsInfo call.header.timestamp pl
        return true
      return false
  | .sell =>
      let best ← liftExcept call.updatedBook.bestOffer
      if (¬ update.cxlreplx ∧ update.px ≤ best.px) ∨ (update.cxlreplx ∧ update.oldpx ≤ best.px) then
        sample logsInfo call.header.timestamp pl
        return true
      return false

/-- `generate_inside` -/
def generateInside (logsInfo : Bool) (call : Callback Wire.StockT β) (pl : Int) :
    EStateM Failure Run Bool := do
  let recorded ← recordLatencyStats logsInfo call pl
  if !recorded then return false
  let bid ← liftExcept call.updatedBook.bestBid
  let offer ← liftExcept call.updatedBook.bestOffer
  modify fun run =>
    { run with
      out := run.out ++
        [⟨call.header.timestamp, call.header.stockLocate, call.update.stock.cStr, bid, offer⟩] }
  return true

/-- The statistics of the security of an update, which are created when it is the first one. -/
def samplePerSymbol (logsInfo : Bool) (cfg : Config) (name : List UInt8) (ts pl : Int) :
    EStateM Failure Run Unit := do
  let reports ← onPart Run.perSymbol (fun perSymbol run => { run with perSymbol := perSymbol })
    (OrderedMap.onEntry (OfflineFeedStatistics.make cfg.symbolStats) name
      (OfflineFeedStatistics.recordSample logsInfo ts pl))
  modify fun run => { run with log := run.log ++ reports }

/-- The time at which the program stops has come. -/
def Config.Stops (cfg : Config) (header : MessageHeader) : Prop :=
  cfg.stopAfterSeconds ≠ 0 ∧ 1000000000 * cfg.stopAfterSeconds ≤ header.timestamp

instance (cfg : Config) (header : MessageHeader) : Decidable (cfg.Stops header) :=
  inferInstanceAs (Decidable (_ ∧ _))

/-- The exception `abort_process_iostream`, which the flag of the run tells from all others -/
def abortProcessIostream : Failure := .external "abort_process_iostream"

/-- The callback of the books; with statistics for each security, or without -/
def callback {χ : Type} (logsInfo : Bool) (cfg : Config) (now : EStateM Failure χ Int)
    (call : Callback Wire.StockT β) : EStateM Failure (χ × Run) Unit := do
  if cfg.Stops call.header then
    onSnd (modify fun run => { run with aborted := true })
    throw abortProcessIostream
  let ts ← onFst now
  let pl := ts - call.update.recvts
  let reported ← onSnd (generateInside logsInfo call pl)
  if !reported then return ()
  if cfg.enableSymbolStats then
    onSnd (samplePerSymbol logsInfo cfg call.update.stock.cStr call.header.timestamp pl)

end Callback

/-! ## The program -/

/-- The characters of a name -/
def nameString (name : List UInt8) : String := String.ofList (name.map fun c => Char.ofNat c.toNat)

/-- The rows of the CSV output, after the header: the securities in the order of their names, and all
updates -/
def printStats (run : Run) : Except Failure (List String) := do
  let rows ← run.perSymbol.entries.mapM fun e => OfflineFeedStatistics.printCsv (nameString e.1) e.2
  let aggregate ← OfflineFeedStatistics.printCsv "__aggregate__" run.stats
  return OfflineFeedStatistics.printCsvHeader :: rows ++ [aggregate]

/-- The statistics at the start -/
def start (cfg : Config) : Except Failure Run := do
  let stats ← OfflineFeedStatistics.make cfg.stats
  return ⟨stats, [], [], .empty, false⟩

section Program

variable {χ : Type} (β : Side → Type) [BookType β]

/-- `process_iostream` with the books that report to the callback -/
def processInput (logsInfo : Bool) (cfg : Config) (now : EStateM Failure χ Int)
    (leftover : IStream → Memory) (input : List UInt8) :
    EStateM Failure (ComputeBook Wire.StockT β × χ × Run) Unit :=
  processIostreamMlist Wire.knownItch5Messages
    (ComputeBook.messageHandler (onFst now) (callback logsInfo cfg now)) leftover 0 0
    (.ofBytes input)

/-- The books of the input, and the handler for the exception at the time to stop -/
def readInput (bookCfg : BookType.Config β) (hashRange : List UInt8 → UInt64) (logsInfo : Bool)
    (cfg : Config) (now : EStateM Failure χ Int) (leftover : IStream → Memory) (clock : χ)
    (input : List UInt8) : EStateM Failure Run Unit := do
  let run ← get
  match (processInput β logsInfo cfg now leftover input).run
      (.make (ShortStringField.hashValue hashRange) bookCfg, clock, run) with
  | .ok _ s => set s.2.2
  | .error e s => do
      set s.2.2
      if !s.2.2.aborted then throw e

/-- `run_inside`, after the statistics are constructed; the result is the CSV output. -/
def runInside (bookCfg : BookType.Config β) (hashRange : List UInt8 → UInt64) (logsInfo : Bool)
    (cfg : Config) (now : EStateM Failure χ Int) (leftover : IStream → Memory) (clock : χ)
    (input : List UInt8) : EStateM Failure Run (List String) := do
  readInput β bookCfg hashRange logsInfo cfg now leftover clock input
  let run ← get
  let final ← liftExcept (OfflineFeedStatistics.logFinalProgress logsInfo run.stats)
  modify fun run => { run with log := run.log ++ final }
  liftExcept (printStats run)

end Program

/-- `main`, after the configuration is loaded: the books are array-based or map-based. -/
def main {χ : Type} (hashRange : List UInt8 → UInt64) (logsInfo : Bool) (cfg : Config)
    (now : EStateM Failure χ Int) (leftover : IStream → Memory) (clock : χ) (input : List UInt8) :
    EStateM Failure Run (List String) :=
  if cfg.enableArrayBased then
    runInside ArrayBasedBookSide cfg.bookCfg hashRange logsInfo cfg now leftover clock input
  else
    runInside MapBasedBookSide () hashRange logsInfo cfg now leftover clock input

end InsideTool

end Itch5

end JayBeams
