import JayBeams.Itch5.InsideProgress

/-!
# The inside of a feed

`mold2inside` builds map-based books from the packets that it receives, and reports their inside as
`itch5inside` does. It prints the statistics when its channel no longer registers for a packet, which is
after an error of the socket.

Whatever packets are lost, received twice or out of order, it writes what `itch5inside` writes for the
file of the messages received, in the order in which they were received.
-/

set_option autoImplicit false

namespace JayBeams.Itch5

open Bytes Containers Machines Machines.Machine MoldUdpPacket

namespace Mold2Inside

/-- `config`, without those of the log and of the receiver -/
structure Config where
  outputFile : String
  stats : OfflineFeedStatisticsConfig
  symbolStats : OfflineFeedStatisticsConfig
  enableSymbolStats : Bool

namespace Config

/-- The constructor -/
def default : Config := ⟨"", .default, InsideTool.Config.defaultPerSymbolStats, false⟩

/-- `validate` -/
def validate (cfg : Config) : Except Failure Unit := do
  InsideTool.Config.check (cfg.outputFile = "")
    "Missing output-file setting.  You must specify an output file."
  cfg.stats.validate
  cfg.symbolStats.validate

/-- The configuration of `itch5inside` that reads a file with the same options. -/
def inside (cfg : Config) (inputFile : String) : InsideTool.Config :=
  ⟨inputFile, cfg.outputFile, cfg.stats, cfg.symbolStats, cfg.enableSymbolStats, false, .default, 0⟩

end Config

/-- The two programs accept the same options. -/
theorem Config.validate_inside (cfg : Config) {inputFile : String} (h : inputFile ≠ "") :
    (cfg.inside inputFile).validate = cfg.validate := by
  have hinput : InsideTool.Config.check ((cfg.inside inputFile).inputFile = "")
      "Missing input-file setting.  You must specify an input file." = .ok () := if_neg h
  rw [InsideTool.Config.validate, hinput, validate]
  show (do
    InsideTool.Config.check (cfg.outputFile = "")
      "Missing output-file setting.  You must specify an output file."
    InsideTool.Config.check ((0 : Int) < 0) "The stop-after-seconds must be >= 0"
    cfg.stats.validate
    cfg.symbolStats.validate
    InsideTool.Config.check (ArrayBasedConfig.default.validate = false) _) = _
  cases InsideTool.Config.check (cfg.outputFile = "")
    "Missing output-file setting.  You must specify an output file." with
  | error e => rfl
  | ok u =>
      cases cfg.stats.validate with
      | error e => rfl
      | ok u =>
          cases cfg.symbolStats.validate with
          | error e => rfl
          | ok u => rfl

/-! ## The program -/

section Callback

variable {β : Side → Type} [BookType β] {χ : Type}

/-- The statistics at the start -/
def start (cfg : Config) : Except Failure InsideTool.Run := do
  let stats ← OfflineFeedStatistics.make cfg.stats
  return ⟨stats, [], [], .empty, false⟩

/-- The callback of the books; with statistics for each security, or without -/
def callback (logsInfo : Bool) (cfg : Config) (now : EStateM Failure χ Int)
    (call : Callback Wire.StockT β) : EStateM Failure (χ × InsideTool.Run) Unit := do
  let ts ← onFst now
  let pl := ts - call.update.recvts
  let reported ← onSnd (InsideTool.generateInside logsInfo call pl)
  if !reported then return ()
  if cfg.enableSymbolStats then
    onSnd (InsideTool.samplePerSymbol logsInfo (cfg.inside "") call.update.stock.cStr
      call.header.timestamp pl)

/-- The callback is that of `itch5inside`, which has no time to stop. -/
theorem callback_eq (logsInfo : Bool) (cfg : Config) (inputFile : String)
    (now : EStateM Failure χ Int) (call : Callback Wire.StockT β) :
    callback logsInfo cfg now call =
      InsideTool.callback logsInfo (cfg.inside inputFile) now call := by
  have hgoes : ¬ (cfg.inside inputFile).Stops call.header := fun h => h.1 rfl
  rw [InsideTool.callback, if_neg hgoes]
  rfl

end Callback

/-- `io_service.run`, which returns when the channel has not registered for another packet. -/
def serve {σ : Type} (handler : MessageHandler σ Int) :
    List Reception → EStateM Failure (MoldUdpChannel × σ) Unit
  | [] => return ()
  | r :: rs => do
      receive handler r
      let s ← get
      if s.1.registered then serve handler rs

/-! ## Receptions -/

section Serve

open ComputeBook

variable {σ : Type}

/-- A reception leaves the channel as it does without the handler. -/
theorem receive_channel (handler : MessageHandler σ Int) (r : Reception) (ch : MoldUdpChannel) (s : σ) :
    Fulfils (fun _ t => t.1 = ch.after r) (fun _ t => t.1 = ch.after r)
      ((receive handler r).run (ch, s)) := by
  rw [receive]
  simp only [EStateM.run_bind, EStateM.run_get, EStateM.run_set]
  have hfinal : finalState ((MoldUdpChannel.receive r).run ch) = ch.after r := (ch.after_eq r).symm
  rw [hfinal]
  cases hcalls : ((ch.delivered r).forM (processBuffer handler (ch.after r).buffer)).run s with
  | error e t =>
      rw [onSnd_run_error hcalls]
      exact rfl
  | ok u t =>
      rw [onSnd_run_ok hcalls]
      cases (MoldUdpChannel.receive r).run ch with
      | error e ch' => exact rfl
      | ok u ch' => exact rfl

/-- The channel registers for the next packet after one that it can read. -/
theorem Carries.registered {r : Reception} {batch : List (List UInt8)} (h : Carries r batch)
    (ch : MoldUdpChannel) : (ch.after r).registered = true := by
  obtain ⟨recvTs, ec, packet⟩ := r
  cases h with
  | packet hec hheader hblocks =>
      simp only at hec hheader hblocks
      subst hec
      rw [ch.after_wellFormed recvTs ⟨hheader, by rw [hblocks]; rfl⟩]
  | nothing hec hbytes =>
      simp only at hec hbytes
      subst hec hbytes
      rw [ch.after_eq]
      rfl

/-- After an error of the socket the program is done. -/
theorem serve_error (handler : MessageHandler σ Int) {r : Reception} (hec : r.ec ≠ 0)
    (rs : List Reception) (ch : MoldUdpChannel) (s : σ) :
    (serve handler (r :: rs)).run (ch, s) = .ok () (ch.after r, s) := by
  have hreceive : (MoldUdpChannel.receive r).run ch =
      .ok () { ch with buffer := ch.buffer.write 0 r.bytes, registered := false } := by
    rw [MoldUdpChannel.receive, EStateM.run_bind, EStateM.run_modify]
    show (MoldUdpChannel.handleReceived r.recvTs r.ec r.bytes.length).run _ = _
    rw [MoldUdpChannel.handleReceived, if_pos hec]
    rfl
  have hafter : ch.after r = { ch with buffer := ch.buffer.write 0 r.bytes, registered := false } := by
    rw [ch.after_eq, hreceive]
    rfl
  have hnone : ch.delivered r = [] := by
    rw [MoldUdpChannel.delivered, hafter]
    exact List.drop_length
  rw [serve, receive, hafter]
  simp only [EStateM.run_bind, EStateM.run_get, EStateM.run_set, hreceive, hnone]
  rfl

variable {β : Side → Type} [BookType β] {υ ω : Type} {Q : υ → ω → Prop}
  {callback : Callback Wire.StockT β → EStateM Failure υ Unit}
  {callback' : Callback Wire.StockT β → EStateM Failure ω Unit}

/-- The program handles the messages that it receives before an error of the socket. -/
theorem serve_simulates (hcallback : SameCallbacks Q callback callback') (now : EStateM Failure υ Int)
    {rs : List Reception} {batches : List (List (List UInt8))} (h : List.Forall₂ Carries rs batches)
    (hdecisive : ∀ message ∈ batches.flatten, Wire.Decisive message) {last : Reception}
    (hlast : last.ec ≠ 0) (rest : List Reception) :
    Simulates Failure.exceptionClass (fun s t => SameFeed Q s.2 t) (fun _ _ => True)
      (serve (messageHandler now callback) (rs ++ last :: rest))
      (handleRecords callback' batches.flatten) := by
  induction h with
  | nil =>
      constructor
      rintro ⟨ch, s⟩ t hst
      rw [List.nil_append, serve_error _ hlast]
      exact ⟨trivial, hst⟩
  | @cons r batch rs batches hr _ ih =>
      rw [List.flatten_cons, List.forall_mem_append] at hdecisive
      rw [List.flatten_cons, handleRecords_append, List.cons_append, serve]
      constructor
      rintro ⟨ch, s⟩ t hst
      have hchannel := receive_channel (messageHandler now callback) r ch s
      have hfirst := (hr.receive_simulates hcallback now hdecisive.1).ends (ch, s) t hst
      rw [EStateM.run_bind, EStateM.run_bind]
      cases hx : (receive (messageHandler now callback) r).run (ch, s) with
      | error e s' =>
          rw [hx] at hfirst
          cases hy : (handleRecords callback' batch).run t with
          | ok u t' =>
              rw [hy] at hfirst
              exact hfirst.elim
          | error e' t' =>
              rw [hy] at hfirst
              exact hfirst
      | ok u s' =>
          rw [hx] at hfirst hchannel
          cases hy : (handleRecords callback' batch).run t with
          | error e t' =>
              rw [hy] at hfirst
              exact hfirst.elim
          | ok v t' =>
              rw [hy] at hfirst
              have hregistered : s'.1.registered = true :=
                (congrArg MoldUdpChannel.registered hchannel).trans (hr.registered ch)
              simp only [EStateM.run_bind, EStateM.run_get, if_pos hregistered]
              exact (ih hdecisive.2).ends s' t' hfirst.2

end Serve

/-! ## The lines written -/

section Program

variable {χ : Type}

/-- The books of what the socket reports -/
def readFeed (hashRange : List UInt8 → UInt64) (logsInfo : Bool) (cfg : Config)
    (now : EStateM Failure χ Int) (buffer : Memory) (clock : χ) (rs : List Reception) :
    EStateM Failure InsideTool.Run Unit := do
  let run ← get
  match (serve (ComputeBook.messageHandler (onFst now) (callback logsInfo cfg now)) rs).run
      (.make buffer, (.make (ShortStringField.hashValue hashRange) () :
        ComputeBook Wire.StockT MapBasedBookSide), clock, run) with
  | .ok _ s => set s.2.2.2
  | .error e s => do
      set s.2.2.2
      throw e

/-- `main`, after the configuration is loaded and the statistics are constructed, on what the socket
reports; the result is the CSV output. -/
def main (hashRange : List UInt8 → UInt64) (logsInfo : Bool) (cfg : Config)
    (now : EStateM Failure χ Int) (buffer : Memory) (clock : χ) (rs : List Reception) :
    EStateM Failure InsideTool.Run (List String) := do
  readFeed hashRange logsInfo cfg now buffer clock rs
  let run ← get
  liftExcept (InsideTool.printStats run)

variable {hashRange : List UInt8 → UInt64} {logsInfo : Bool} {cfg : Config}
  {now : EStateM Failure χ Int} {buffer : Memory} {clock : χ} {run : InsideTool.Run}

theorem readFeed_ok {rs : List Reception} {u : Unit}
    {s : MoldUdpChannel × ComputeBook Wire.StockT MapBasedBookSide × χ × InsideTool.Run}
    (h : (serve (ComputeBook.messageHandler (onFst now) (callback logsInfo cfg now)) rs).run
      (.make buffer, .make (ShortStringField.hashValue hashRange) (), clock, run) = .ok u s) :
    (readFeed hashRange logsInfo cfg now buffer clock rs).run run = .ok () s.2.2.2 := by
  rw [readFeed, EStateM.run_bind, EStateM.run_get]
  dsimp only
  rw [h]
  rfl

theorem readFeed_error {rs : List Reception} {e : Failure}
    {s : MoldUdpChannel × ComputeBook Wire.StockT MapBasedBookSide × χ × InsideTool.Run}
    (h : (serve (ComputeBook.messageHandler (onFst now) (callback logsInfo cfg now)) rs).run
      (.make buffer, .make (ShortStringField.hashValue hashRange) (), clock, run) = .error e s) :
    (readFeed hashRange logsInfo cfg now buffer clock rs).run run = .error e s.2.2.2 := by
  rw [readFeed, EStateM.run_bind, EStateM.run_get]
  dsimp only
  rw [h]
  rfl

end Program

section Lines

open InsideTool (SameWritten SameRun Ticks steady)
open OfflineFeedStatistics (SameRow)

variable {χ ξ : Type} {hashRange : List UInt8 → UInt64} {logsInfo : Bool} {cfg : Config}
  {now : EStateM Failure χ Int} {now' : EStateM Failure ξ Int} {leftover : IStream → Memory}
  {buffer : Memory} {clock : χ} {clock' : ξ} {run : InsideTool.Run} {inputFile : String}
  {rs : List Reception} {batches : List (List (List UInt8))} {last : Reception}

/-- The messages of a packet are shorter than the largest size of a block. -/
theorem length_lt_of_blocks? {n : Nat} {body : List UInt8} {messages : List (List UInt8)}
    (h : blocks? n body = some messages) : ∀ message ∈ messages, message.length < 65536 := by
  induction n generalizing body messages with
  | zero =>
      cases h
      exact fun message hmem => absurd hmem List.not_mem_nil
  | succ n ih =>
      rcases body with _ | ⟨hi, _ | ⟨lo, rest⟩⟩
      · cases h
      · cases h
      · rw [blocks?] at h
        split at h
        · obtain ⟨tail, htail, rfl⟩ := Option.map_eq_some_iff.1 h
          rw [List.forall_mem_cons]
          refine ⟨?_, ih htail⟩
          have hsize : blockSize hi lo < 65536 := UInt16.toNat_lt _
          exact (List.length_take_le _ _).trans_lt hsize
        · cases h

theorem Carries.length_lt {r : Reception} {batch : List (List UInt8)} (h : Carries r batch) :
    ∀ message ∈ batch, message.length < 65536 := by
  cases h with
  | packet hec hheader hblocks => exact length_lt_of_blocks? hblocks
  | nothing hec hbytes => exact fun message hmem => absurd hmem List.not_mem_nil

theorem length_lt_of_carries (h : List.Forall₂ Carries rs batches) :
    ∀ message ∈ batches.flatten, message.length < 65536 := by
  induction h with
  | nil => exact fun message hmem => absurd hmem List.not_mem_nil
  | cons hr _ ih =>
      rw [List.flatten_cons, List.forall_mem_append]
      exact ⟨hr.length_lt, ih⟩

/-- The file is read to its end. -/
theorem processInput_running (logsInfo : Bool) (cfg : Config) (inputFile : String)
    (now : EStateM Failure χ Int) (leftover : IStream → Memory) (input : List UInt8) :
    Meets (fun s : ComputeBook Wire.StockT MapBasedBookSide × χ × InsideTool.Run =>
        s.2.2.aborted = false)
      (InsideTool.processInput MapBasedBookSide logsInfo (cfg.inside inputFile) now leftover input)
      (fun _ s => s.2.2.aborted = false) (fun _ s => s.2.2.aborted = false) := by
  apply processIostreamMlist_meets
  · exact (Meets.onFst_frame (F := fun run : InsideTool.Run => run.aborted = false) now).onSnd
  · refine ComputeBook.messageHandler_meets (I := fun s : χ × InsideTool.Run => s.2.aborted = false)
      (J := fun s => s.2.aborted = false) (fun call => ?_) (fun _ h => h) (fun _ _ h => h) _
    apply InsideTool.callback_keeps InsideTool.ignores_running
    · exact fun hstop => absurd rfl hstop.1
    · exact fun _ _ _ _ h => h
  · exact fun _ _ h => h

/-- Two programs whose books report the same end in the same way. -/
theorem readFeed_of_ends {input : List UInt8}
    (hinput : Ends Failure.exceptionClass (fun s t => SameRun s.2.2.2 t.2.2) (fun _ _ => True)
      ((serve (ComputeBook.messageHandler (onFst now)
        (callback (β := MapBasedBookSide) logsInfo cfg now)) rs).run
        (.make buffer, .make (ShortStringField.hashValue hashRange) (), clock, run))
      ((InsideTool.processInput MapBasedBookSide logsInfo (cfg.inside inputFile) now' leftover
        input).run (.make (ShortStringField.hashValue hashRange) (), clock', run)))
    (hrunning : Fulfils (fun _ s => s.2.2.aborted = false) (fun _ s => s.2.2.aborted = false)
      ((InsideTool.processInput MapBasedBookSide logsInfo (cfg.inside inputFile) now' leftover
        input).run (.make (ShortStringField.hashValue hashRange) (), clock', run))) :
    Ends Failure.exceptionClass SameWritten (fun _ _ => True)
      ((readFeed hashRange logsInfo cfg now buffer clock rs).run run)
      ((InsideTool.readInput MapBasedBookSide () hashRange logsInfo (cfg.inside inputFile) now' leftover
        clock' input).run run) := by
  cases hx : (serve (ComputeBook.messageHandler (onFst now)
      (callback (β := MapBasedBookSide) logsInfo cfg now)) rs).run
      (.make buffer, .make (ShortStringField.hashValue hashRange) (), clock, run) with
  | ok u s =>
      rw [hx] at hinput
      obtain ⟨v, t, hy, -, hsame⟩ := hinput.symm.of_ok
      rw [readFeed_ok hx, InsideTool.readInput_ok hy]
      exact ⟨trivial, hsame.toSameWritten⟩
  | error e s =>
      rw [hx] at hinput
      cases hy : (InsideTool.processInput MapBasedBookSide logsInfo (cfg.inside inputFile) now' leftover
          input).run (.make (ShortStringField.hashValue hashRange) (), clock', run) with
      | ok v t =>
          rw [hy] at hinput
          exact hinput.elim
      | error e' t =>
          rw [hy] at hinput hrunning
          have hgoes : t.2.2.aborted = false := hrunning
          rw [readFeed_error hx, InsideTool.readInput_error hy, hgoes]
          exact ⟨hinput.1, hinput.2.toSameWritten⟩

/-- The messages that are received are handled as those of a file. -/
theorem readFeed_ends (hashRange : List UInt8 → UInt64) (logsInfo : Bool) (cfg : Config)
    (inputFile : String) (hnow : Ticks now) (hnow' : Ticks now') (leftover : IStream → Memory)
    (buffer : Memory) (clock : χ) (clock' : ξ) (hrs : List.Forall₂ Carries rs batches)
    (hdecisive : ∀ message ∈ batches.flatten, Wire.Decisive message) (hlast : last.ec ≠ 0)
    (rest : List Reception) (hstart : start cfg = .ok run) :
    Ends Failure.exceptionClass SameWritten (fun _ _ => True)
      ((readFeed hashRange logsInfo cfg now buffer clock (rs ++ last :: rest)).run run)
      ((InsideTool.readInput MapBasedBookSide () hashRange logsInfo (cfg.inside inputFile) now' leftover
        clock' (encodeBlocks batches.flatten)).run run) := by
  have hinside : InsideTool.start (cfg.inside inputFile) = .ok run := hstart
  have hsame : SameRun run run := InsideTool.sameRun_start hinside
  have hcallback : ComputeBook.SameCallbacks
      (fun (s : χ × InsideTool.Run) (t : Unit × InsideTool.Run) => SameRun s.2 t.2)
      (callback (β := MapBasedBookSide) logsInfo cfg now)
      (InsideTool.callback logsInfo (cfg.inside inputFile) steady) := by
    intro call recvts recvts'
    rw [callback_eq logsInfo cfg inputFile]
    exact InsideTool.callback_simulates hnow InsideTool.steady_ticks
      ⟨rfl, rfl, rfl, rfl, rfl, rfl, rfl, rfl⟩
  have hserve := (serve_simulates hcallback (onFst now) hrs hdecisive hlast rest).ends
    (.make buffer, .make (ShortStringField.hashValue hashRange) (), clock, run)
    (.make (ShortStringField.hashValue hashRange) (), (), run) ⟨rfl, hsame⟩
  have hmessages : ∀ message ∈ batches.flatten, message.length < 65536 ∧ Wire.Decisive message :=
    fun message hmem => ⟨length_lt_of_carries hrs message hmem, hdecisive message hmem⟩
  have hfile := (InsideTool.processInput_simulates (β := MapBasedBookSide) logsInfo
    (cfg.inside inputFile) hnow' leftover hmessages).ends
    (.make (ShortStringField.hashValue hashRange) (), clock', run)
    (.make (ShortStringField.hashValue hashRange) (), (), run) ⟨rfl, hsame⟩
  have hgoes : run.aborted = false := by
    obtain ⟨stats, -, rfl⟩ := InsideTool.start_eq_ok hinside
    rfl
  have hrunning := (processInput_running logsInfo cfg inputFile now' leftover
    (encodeBlocks batches.flatten)).fulfils
    (.make (ShortStringField.hashValue hashRange) (), clock', run) hgoes
  refine readFeed_of_ends ((hserve.trans hfile.symm).imp ?_ fun _ _ _ => trivial) hrunning
  rintro s t ⟨m, hsm, htm⟩
  exact hsm.2.trans htm.2.symm

/-- The programs end alike: they wrote the same lines, and print the same up to latencies. Only the
report at the end, which one of them does not make, can tell the two apart. -/
def EndsAsFile (logsInfo : Bool) (received file : EStateM.Result Failure InsideTool.Run (List String)) :
    Prop :=
  Ends Failure.exceptionClass (fun s t => s.out = t.out) (List.Forall₂ SameRow) received file ∨
    ∃ e t, file = .error e t ∧ OfflineFeedStatistics.logFinalProgress logsInfo t.stats = .error e ∧
      (finalState received).out = t.out

theorem endsAsFile_of_read {input : List UInt8}
    (hread : Ends Failure.exceptionClass SameWritten (fun _ _ => True)
      ((readFeed hashRange logsInfo cfg now buffer clock rs).run run)
      ((InsideTool.readInput MapBasedBookSide () hashRange logsInfo (cfg.inside inputFile) now' leftover
        clock' input).run run)) :
    EndsAsFile logsInfo ((main hashRange logsInfo cfg now buffer clock rs).run run)
      ((InsideTool.runInside MapBasedBookSide () hashRange logsInfo (cfg.inside inputFile) now' leftover
        clock' input).run run) := by
  let received := (main hashRange logsInfo cfg now buffer clock rs).run run
  let file := (InsideTool.runInside MapBasedBookSide () hashRange logsInfo (cfg.inside inputFile) now'
    leftover clock' input).run run
  show EndsAsFile logsInfo received file
  cases hx : (readFeed hashRange logsInfo cfg now buffer clock rs).run run with
  | error e s =>
      rw [hx] at hread
      cases hy : (InsideTool.readInput MapBasedBookSide () hashRange logsInfo (cfg.inside inputFile) now'
          leftover clock' input).run run with
      | ok u t =>
          rw [hy] at hread
          exact hread.elim
      | error e' t =>
          rw [hy] at hread
          have hreceived : received = .error e s := by
            simp only [received, main, EStateM.run_bind, hx]
          have hfile : file = .error e' t := by
            simp only [file, InsideTool.runInside, EStateM.run_bind, hy]
          rw [hreceived, hfile]
          exact Or.inl ⟨hread.1, hread.2.out⟩
  | ok u s =>
      rw [hx] at hread
      cases hy : (InsideTool.readInput MapBasedBookSide () hashRange logsInfo (cfg.inside inputFile) now'
          leftover clock' input).run run with
      | error e' t =>
          rw [hy] at hread
          exact hread.elim
      | ok v t =>
          rw [hy] at hread
          have hreceived : received = (liftExcept (InsideTool.printStats s)).run s := by
            simp only [received, main, EStateM.run_bind, hx, EStateM.run_get]
          cases hfinal : OfflineFeedStatistics.logFinalProgress logsInfo t.stats with
          | error e =>
              have hfile : file = .error e t := by
                simp only [file, InsideTool.runInside, EStateM.run_bind, hy, EStateM.run_get, hfinal]
                rfl
              refine Or.inr ⟨e, t, hfile, hfinal, ?_⟩
              rw [hreceived]
              cases InsideTool.printStats s with
              | error e' => exact hread.2.out
              | ok rows => exact hread.2.out
          | ok final =>
              have hfile : file = (liftExcept (InsideTool.printStats t)).run
                  { t with log := t.log ++ final } := by
                simp only [file, InsideTool.runInside, EStateM.run_bind, hy, EStateM.run_get,
                  liftExcept_run_ok hfinal, EStateM.run_modify]
              rw [hreceived, hfile]
              exact Or.inl ((liftExcept_same hread.2.printStats).ends s
                { t with log := t.log ++ final } hread.2.out)

/-- Whatever packets it receives before an error of the socket, in whatever order, the program ends as
`itch5inside` does on the file of their messages. -/
theorem received_lines (hashRange : List UInt8 → UInt64) (logsInfo : Bool) (cfg : Config)
    (inputFile : String) (hnow : Ticks now) (hnow' : Ticks now') (leftover : IStream → Memory)
    (buffer : Memory) (clock : χ) (clock' : ξ) (hrs : List.Forall₂ Carries rs batches)
    (hdecisive : ∀ message ∈ batches.flatten, Wire.Decisive message) (hlast : last.ec ≠ 0)
    (rest : List Reception) (hstart : start cfg = .ok run) :
    EndsAsFile logsInfo ((main hashRange logsInfo cfg now buffer clock (rs ++ last :: rest)).run run)
      ((InsideTool.runInside MapBasedBookSide () hashRange logsInfo (cfg.inside inputFile) now' leftover
        clock' (encodeBlocks batches.flatten)).run run) :=
  endsAsFile_of_read (readFeed_ends hashRange logsInfo cfg inputFile hnow hnow' leftover buffer clock
    clock' hrs hdecisive hlast rest hstart)

/-- Two orders in a packet, and one of them again. -/
theorem received_lines_two_orders : ∃ run, start .default = .ok run ∧
    EndsAsFile true
      ((main (fun _ => 0) true .default steady (fun _ => 0) ()
        [⟨0, 0, encodePacket (List.replicate 10 0) 0 [buyOrder 1, buyOrder 2]⟩, ⟨0, 0, []⟩,
          ⟨0, 0, encodePacket (List.replicate 10 0) 0 [buyOrder 1]⟩, ⟨0, 1, []⟩]).run run)
      ((InsideTool.runInside MapBasedBookSide () (fun _ => 0) true (Config.default.inside "in.gz")
        InsideTool.counting (fun _ _ => 1) 0
        (encodeBlocks [buyOrder 1, buyOrder 2, buyOrder 1])).run run) := by
  obtain ⟨run, hstart⟩ : ∃ run, start .default = .ok run := InsideTool.start_default
  have htwo : Fits [buyOrder 1, buyOrder 2] := ⟨by decide, by decide⟩
  have hagain : Fits [buyOrder 1] := ⟨by decide, by decide⟩
  have hdecisive : ∀ message ∈ [buyOrder 1, buyOrder 2, buyOrder 1], Wire.Decisive message := by
    rw [List.forall_mem_cons, List.forall_mem_cons, List.forall_mem_singleton]
    exact ⟨decisive_buyOrder 1, decisive_buyOrder 2, decisive_buyOrder 1⟩
  have hcarries : List.Forall₂ Carries
      [⟨0, 0, encodePacket (List.replicate 10 0) 0 [buyOrder 1, buyOrder 2]⟩, ⟨0, 0, []⟩,
        ⟨0, 0, encodePacket (List.replicate 10 0) 0 [buyOrder 1]⟩]
      [[buyOrder 1, buyOrder 2], [], [buyOrder 1]] :=
    .cons (carries_encodePacket rfl htwo 0 rfl rfl) (.cons (.nothing rfl rfl)
      (.cons (carries_encodePacket rfl hagain 0 rfl rfl) .nil))
  exact ⟨run, hstart, received_lines (fun _ => 0) true .default "in.gz" InsideTool.steady_ticks
    InsideTool.counting_ticks (fun _ _ => 1) (fun _ => 0) () 0 hcarries hdecisive Int.one_ne_zero []
    hstart⟩

/-- When the messages that are received can be read to their end, the program returns at the error of the
socket. It has then written its lines in order, at most one for each message. -/
theorem received_returns (hashRange : List UInt8 → UInt64) (hashName : Name → UInt64)
    (hcfg : cfg.validate = .ok ()) (htypes : OfflineFeedStatistics.FitsTypes cfg.stats)
    (htypes' : OfflineFeedStatistics.FitsTypes cfg.symbolStats) (hnow : Ticks now) (buffer : Memory)
    (clock : χ) (hrs : List.Forall₂ Carries rs batches)
    (hdecisive : ∀ message ∈ batches.flatten, Wire.Decisive message)
    (hhash : InsideTool.HashesAgree hashRange batches.flatten)
    (hread : InsideTool.Readable (.make hashName ()) batches.flatten)
    (hfew : batches.flatten.length < 2147483648) (hlast : last.ec ≠ 0) (rest : List Reception)
    (hstart : start cfg = .ok run) :
    ∃ rows run',
      (main hashRange false cfg now buffer clock (rs ++ last :: rest)).run run = .ok rows run' ∧
      InsideTool.InOrder run'.out ∧ run'.out.length ≤ batches.flatten.length := by
  have hmessages : ∀ message ∈ batches.flatten, message.length < 65536 ∧ Wire.Decisive message :=
    fun message hmem => ⟨length_lt_of_carries hrs message hmem, hdecisive message hmem⟩
  have hvalid : (cfg.inside "in.gz").validate = .ok () := by
    rw [cfg.validate_inside (by decide), hcfg]
  obtain ⟨hrecords, hfile⟩ := InsideTool.records_returns hashRange hashName hvalid htypes htypes'
    InsideTool.steady_ticks (fun _ _ => 0) () hmessages hhash hread hfew hstart
  obtain ⟨rows, run', hrun, horder, hlines⟩ := InsideTool.runInside_returns hfile hrecords
  have hends := endsAsFile_of_read (readFeed_ends hashRange false cfg "in.gz" hnow
    InsideTool.steady_ticks (fun _ _ => 0) buffer clock () hrs hdecisive hlast rest hstart)
  rw [hrun] at hends
  rcases hends with hends | ⟨e, t, hraised, -⟩
  · obtain ⟨rows', s, hmain, -, hout⟩ := hends.of_ok
    refine ⟨rows', s, hmain, ?_⟩
    rw [hout]
    exact ⟨horder, hlines⟩
  · cases hraised

/-- A configuration with the name of the output file, and statistics for each security -/
def withFile : Config := { Config.default with outputFile := "out.gz", enableSymbolStats := true }

theorem validate_withFile : withFile.validate = .ok () := rfl

/-- A packet of two orders -/
theorem received_returns_two_orders : ∃ run rows run', start withFile = .ok run ∧
    (main (fun _ => 0) false withFile steady (fun _ => 0) ()
      [⟨0, 0, encodePacket (List.replicate 10 0) 0 [buyOrder 1, buyOrder 2]⟩, ⟨0, 1, []⟩]).run run =
        .ok rows run' := by
  obtain ⟨run, hstart⟩ : ∃ run, start withFile = .ok run := InsideTool.start_withFiles
  have htwo : Fits [buyOrder 1, buyOrder 2] := ⟨by decide, by decide⟩
  have hcarries : List.Forall₂ Carries
      [⟨0, 0, encodePacket (List.replicate 10 0) 0 [buyOrder 1, buyOrder 2]⟩]
      [[buyOrder 1, buyOrder 2]] := .cons (carries_encodePacket rfl htwo 0 rfl rfl) .nil
  have herror : (⟨0, 1, []⟩ : Reception).ec ≠ 0 := Int.one_ne_zero
  obtain ⟨rows, run', hrun, -⟩ := received_returns (fun _ => 0) (fun _ => 0) validate_withFile
    OfflineFeedStatistics.fitsTypes_default InsideTool.fitsTypes_perSymbol InsideTool.steady_ticks
    (fun _ => 0) () hcarries (fun message hmem => (InsideTool.twoOrders_decisive message hmem).2)
    (fun _ _ _ _ _ => rfl) InsideTool.readable_twoOrders (by decide) herror [] hstart
  exact ⟨run, rows, run', hstart, hrun⟩

/-! ## A replayed file -/

/-- A packet of the replay brings its batch, whenever it is received. -/
theorem carries_of_packet {session : List UInt8}
    (hsession : session.length = MoldUdpProtocol.sessionIdSize)
    (hfits : ∀ batch ∈ batches, Fits batch) {k i : Nat} {r : Reception} (hec : r.ec = 0)
    (hr : (packetsOf session k batches)[i]? = some r.bytes) :
    ∃ batch, batches[i]? = some batch ∧ Carries r batch := by
  induction batches generalizing k i with
  | nil => cases hr
  | cons batch batches ih =>
      rw [List.forall_mem_cons] at hfits
      cases i with
      | zero =>
          exact ⟨batch, rfl, carries_encodePacket hsession hfits.1 _ hec (Option.some.inj hr).symm⟩
      | succ i => exact ih hfits.2 hr

theorem length_packetsOf (session : List UInt8) (k : Nat) :
    (packetsOf session k batches).length = batches.length := by
  induction batches generalizing k with
  | nil => rfl
  | cons batch batches ih => exact congrArg Nat.succ (ih _)

/-- Packets of the replay bring their batches, in the order in which they are received. -/
theorem carries_of_packets {session : List UInt8}
    (hsession : session.length = MoldUdpProtocol.sessionIdSize)
    (hfits : ∀ batch ∈ batches, Fits batch) {k : Nat} {picked : List Nat}
    (h : List.Forall₂ (fun r i => r.ec = 0 ∧ (packetsOf session k batches)[i]? = some r.bytes) rs
      picked) :
    List.Forall₂ Carries rs (picked.filterMap fun i => batches[i]?) := by
  induction h with
  | nil => exact .nil
  | cons hr _ ih =>
      obtain ⟨batch, hbatch, hcarries⟩ := carries_of_packet hsession hfits hr.1 hr.2
      rw [List.filterMap_cons_some hbatch]
      exact .cons hcarries ih

/-- A file is replayed in batches, and some of its messages are never sent. Of the packets some may be
lost, and some received twice or in another order: the program ends as `itch5inside` does on the file of
the batches that are received. -/
theorem replayed_lines {pacer : MoldUdpPacerConfig} (hpacer : pacer.validate = .ok ())
    {messages : List (List UInt8)} (hfew : messages.length ≤ 4294967296)
    (hsize : ∀ message ∈ messages, 11 ≤ message.length ∧
      (message.length : Int) + 2 < pacer.maximumTransmissionUnit - MoldUdpProtocol.headerSize)
    (hdecisive : ∀ message ∈ messages, Wire.Decisive message) (leftover' : IStream → Memory)
    (hashRange : List UInt8 → UInt64) (logsInfo : Bool) (cfg : Config) (inputFile : String)
    (hnow : Ticks now) (hnow' : Ticks now') (leftover : IStream → Memory) (buffer : Memory) (clock : χ)
    (clock' : ξ) (hstart : start cfg = .ok run) :
    ∃ (batches : List (List (List UInt8))) (lost : List (List UInt8)),
      messages = batches.flatten ++ lost ∧ (lost = [] ↔ messages = []) ∧
      (Replayer.packets pacer leftover' (encodeBlocks messages)).length = batches.length ∧
      ∀ (picked : List Nat) (rs : List Reception) (last : Reception) (rest : List Reception),
        List.Forall₂ (fun r i => r.ec = 0 ∧
          (Replayer.packets pacer leftover' (encodeBlocks messages))[i]? = some r.bytes) rs picked →
        last.ec ≠ 0 →
        EndsAsFile logsInfo
          ((main hashRange logsInfo cfg now buffer clock (rs ++ last :: rest)).run run)
          ((InsideTool.runInside MapBasedBookSide () hashRange logsInfo (cfg.inside inputFile) now'
            leftover clock'
            (encodeBlocks (picked.filterMap fun i => batches[i]?).flatten)).run run) := by
  obtain ⟨session, batches, waiting, hsession, hfits, hpackets, rfl, hwaits, -⟩ :=
    Replayer.packets_eq hpacer hfew hsize leftover'
  refine ⟨batches, waiting, rfl, hwaits, ?_, fun picked rs last rest hrs hlast => ?_⟩
  · rw [hpackets, length_packetsOf]
  · rw [hpackets] at hrs
    rw [List.forall_mem_append] at hdecisive
    refine endsAsFile_of_read (readFeed_ends hashRange logsInfo cfg inputFile hnow hnow' leftover buffer
      clock clock' (carries_of_packets hsession hfits hrs) (fun message hmem => ?_) hlast rest hstart)
    obtain ⟨batch, hbatch, hmessage⟩ := List.mem_flatten.1 hmem
    obtain ⟨i, -, hi⟩ := List.mem_filterMap.1 hbatch
    exact hdecisive.1 message (List.mem_flatten.2 ⟨batch, List.mem_of_getElem? hi, hmessage⟩)

/-- The packets of two orders, the last one first. -/
theorem replayed_lines_two_orders : ∃ (run : InsideTool.Run) (batches : List (List (List UInt8))),
    start .default = .ok run ∧
    EndsAsFile true
      ((main (fun _ => 0) true .default steady (fun _ => 0) ()
        ((MoldUdpPacer.receptionsOf (Replayer.packets .defaults (fun _ _ => 0)
          (encodeBlocks [buyOrder 1, buyOrder 2]))).reverse ++ [⟨0, 1, []⟩])).run run)
      ((InsideTool.runInside MapBasedBookSide () (fun _ => 0) true (Config.default.inside "in.gz")
        InsideTool.counting (fun _ _ => 1) 0 (encodeBlocks
          ((List.range batches.length).reverse.filterMap fun i => batches[i]?).flatten)).run run) := by
  obtain ⟨run, hstart⟩ : ∃ run, start .default = .ok run := InsideTool.start_default
  have hmessages : ∀ message ∈ [buyOrder 1, buyOrder 2],
      (11 ≤ message.length ∧ (message.length : Int) + 2 < 508 - MoldUdpProtocol.headerSize) ∧
        Wire.Decisive message := by
    rw [List.forall_mem_cons, List.forall_mem_singleton]
    exact ⟨⟨by decide, decisive_buyOrder 1⟩, ⟨by decide, decisive_buyOrder 2⟩⟩
  obtain ⟨batches, lost, -, -, hlength, hlines⟩ := replayed_lines MoldUdpPacerConfig.validate_defaults
    (by decide) (fun message h => (hmessages message h).1) (fun message h => (hmessages message h).2)
    (fun _ _ => 0) (fun _ => 0) true .default "in.gz" InsideTool.steady_ticks InsideTool.counting_ticks
    (fun _ _ => 1) (fun _ => 0) () 0 hstart
  refine ⟨run, batches, hstart, hlines (List.range batches.length).reverse _ _ _ ?_ Int.one_ne_zero⟩
  rw [List.forall₂_reverse_iff, List.forall₂_iff_get]
  refine ⟨by rw [List.length_range, ← hlength, MoldUdpPacer.receptionsOf, List.length_map], ?_⟩
  intro i hi _
  simp only [MoldUdpPacer.receptionsOf, List.get_eq_getElem, List.getElem_map, List.getElem_range]
  exact ⟨trivial, List.getElem?_eq_getElem _⟩

end Lines

end Mold2Inside

end JayBeams.Itch5
