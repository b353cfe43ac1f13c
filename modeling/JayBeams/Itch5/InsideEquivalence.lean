import JayBeams.Itch5.ComputeBookSimulation
import JayBeams.Itch5.FeedReplay
import JayBeams.Itch5.InsideAccounts
import JayBeams.Itch5.StockNames
import JayBeams.LatencyBlind

/-!
# One inside, several programs

What `itch5inside` writes depends neither on the clock nor on the type of the books.
-/

set_option autoImplicit false

namespace JayBeams.Itch5

open Bytes Containers Machines Machines.Machine MoldUdpPacket

namespace InsideTool

/-- The same lines were written, with statistics that differ in the latencies alone. -/
structure SameWritten (run run' : Run) : Prop where
  stats : OfflineFeedStatistics.SameCounts run.stats run'.stats
  out : run.out = run'.out
  perSymbol : OrderedMap.SameEntries OfflineFeedStatistics.SameCounts run.perSymbol run'.perSymbol

theorem SameWritten.symm {run run' : Run} (h : SameWritten run run') : SameWritten run' run where
  stats := h.stats.symm
  out := h.out.symm
  perSymbol := List.Forall₂.imp (fun _ _ hef => ⟨hef.1, hef.2.symm⟩) h.perSymbol.symm

theorem SameWritten.trans {run run' run'' : Run} (h : SameWritten run run')
    (h' : SameWritten run' run'') : SameWritten run run'' where
  stats := h.stats.trans h'.stats
  out := h.out.trans h'.out
  perSymbol := by
    refine List.Forall₂.imp (fun e f hef => ?_) (h.perSymbol.trans h'.perSymbol)
    obtain ⟨hkey, s, hs, hs'⟩ := hef
    exact ⟨hkey, hs.trans hs'⟩

/-- Both programs stopped at their time, or none did, and wrote the same. -/
structure SameRun (run run' : Run) : Prop extends SameWritten run run' where
  aborted : run.aborted = run'.aborted

theorem SameRun.symm {run run' : Run} (h : SameRun run run') : SameRun run' run :=
  ⟨h.toSameWritten.symm, h.aborted.symm⟩

theorem SameRun.trans {run run' run'' : Run} (h : SameRun run run') (h' : SameRun run' run'') :
    SameRun run run'' :=
  ⟨h.toSameWritten.trans h'.toSameWritten, h.aborted.trans h'.aborted⟩

/-- Two calls of the callback agree in all that it looks at but the time of receipt. -/
structure SameCall {β γ : Side → Type} [BookType β] [BookType γ] (call : Callback Wire.StockT β)
    (call' : Callback Wire.StockT γ) : Prop where
  header : call.header = call'.header
  side : call.update.buySellIndicator = call'.update.buySellIndicator
  px : call.update.px = call'.update.px
  cxlreplx : call.update.cxlreplx = call'.update.cxlreplx
  oldpx : call.update.oldpx = call'.update.oldpx
  name : call.update.stock.cStr = call'.update.stock.cStr
  bestBid : call.updatedBook.bestBid = call'.updatedBook.bestBid
  bestOffer : call.updatedBook.bestOffer = call'.updatedBook.bestOffer

section Callback

variable {β γ : Side → Type} [BookType β] [BookType γ] {call : Callback Wire.StockT β}
  {call' : Callback Wire.StockT γ} {logsInfo : Bool} {cfg : Config}

theorem sample_simulates (ts pl pl' : Int) :
    Simulates Failure.exceptionClass SameRun (fun _ _ => True) (sample logsInfo ts pl)
      (sample logsInfo ts pl') := by
  refine Simulates.bind (onPart_simulates
    (OfflineFeedStatistics.recordSample_simulates logsInfo ts pl pl') ?_ ?_) fun _ _ _ => ?_
  · exact fun _ _ h => h.stats
  · exact fun _ _ _ _ h hstats => ⟨⟨hstats, h.out, h.perSymbol⟩, h.aborted⟩
  · exact Simulates.modify fun _ _ h => ⟨⟨h.stats, h.out, h.perSymbol⟩, h.aborted⟩

theorem samplePerSymbol_simulates (name : List UInt8) (ts pl pl' : Int) :
    Simulates Failure.exceptionClass SameRun (fun _ _ => True)
      (samplePerSymbol logsInfo cfg name ts pl) (samplePerSymbol logsInfo cfg name ts pl') := by
  have hmake : SameResult OfflineFeedStatistics.SameCounts
      (OfflineFeedStatistics.make cfg.symbolStats) (OfflineFeedStatistics.make cfg.symbolStats) := by
    cases hmake : OfflineFeedStatistics.make cfg.symbolStats with
    | error e => exact .error e
    | ok s => exact .ok (OfflineFeedStatistics.sameCounts_make hmake)
  refine Simulates.bind (onPart_simulates (OrderedMap.onEntry_simulates hmake
    (OfflineFeedStatistics.recordSample_simulates logsInfo ts pl pl') name) ?_ ?_) fun _ _ _ => ?_
  · exact fun _ _ h => h.perSymbol
  · exact fun _ _ _ _ h hsymbols => ⟨⟨h.stats, h.out, hsymbols⟩, h.aborted⟩
  · exact Simulates.modify fun _ _ h => ⟨⟨h.stats, h.out, h.perSymbol⟩, h.aborted⟩

/-- The test of a side, and the sample when it succeeds. -/
theorem sampleIf_simulates (best : Except Failure HalfQuote) (p : HalfQuote → Prop) [DecidablePred p]
    (ts pl pl' : Int) :
    Simulates Failure.exceptionClass SameRun Eq
      (do
        let best ← liftExcept best
        if p best then
          sample logsInfo ts pl
          return true
        return false)
      (do
        let best ← liftExcept best
        if p best then
          sample logsInfo ts pl'
          return true
        return false) := by
  apply Simulates.bind (liftExcept_same (SameResult.refl best))
  rintro quote _ rfl
  split
  · exact (sample_simulates ts pl pl').bind fun _ _ _ => Simulates.pure rfl
  · exact Simulates.pure rfl

theorem recordLatencyStats_simulates (h : SameCall call call') (pl pl' : Int) :
    Simulates Failure.exceptionClass SameRun Eq (recordLatencyStats logsInfo call pl)
      (recordLatencyStats logsInfo call' pl') := by
  simp only [recordLatencyStats, h.side, h.bestBid, h.bestOffer, h.px, h.cxlreplx, h.oldpx, h.header]
  cases call'.update.buySellIndicator with
  | buy => exact sampleIf_simulates _ _ _ pl pl'
  | sell => exact sampleIf_simulates _ _ _ pl pl'

theorem generateInside_simulates (h : SameCall call call') (pl pl' : Int) :
    Simulates Failure.exceptionClass SameRun Eq (generateInside logsInfo call pl)
      (generateInside logsInfo call' pl') := by
  apply Simulates.bind (recordLatencyStats_simulates h pl pl')
  rintro recorded _ rfl
  split
  · exact Simulates.pure rfl
  · rw [h.bestBid, h.bestOffer, h.header, h.name]
    apply Simulates.bind (liftExcept_same (SameResult.refl _))
    rintro bid _ rfl
    apply Simulates.bind (liftExcept_same (SameResult.refl _))
    rintro offer _ rfl
    refine Simulates.bind (Simulates.modify ?_) fun _ _ _ => Simulates.pure rfl
    exact fun _ _ h => ⟨⟨h.stats, congrArg (· ++ _) h.out, h.perSymbol⟩, h.aborted⟩

/-- A clock that never raises. -/
def Ticks {χ : Type} (now : EStateM Failure χ Int) : Prop := ∀ c, ∃ t c', now.run c = .ok t c'

theorem Ticks.simulates {χ ξ : Type} {now : EStateM Failure χ Int} {now' : EStateM Failure ξ Int}
    (hnow : Ticks now) (hnow' : Ticks now') :
    Simulates Failure.exceptionClass (fun (s : χ × Run) (t : ξ × Run) => SameRun s.2 t.2)
      (fun _ _ => True) (onFst now) (onFst now') := by
  constructor
  intro s t h
  obtain ⟨a, c, hrun⟩ := hnow s.1
  obtain ⟨b, c', hrun'⟩ := hnow' t.1
  rw [onFst_run_ok hrun, onFst_run_ok hrun']
  exact ⟨trivial, h⟩

theorem onSnd_simulates {χ ξ α β : Type} {V : α → β → Prop} {act : EStateM Failure Run α}
    {act' : EStateM Failure Run β} (h : Simulates Failure.exceptionClass SameRun V act act') :
    Simulates Failure.exceptionClass (fun (s : χ × Run) (t : ξ × Run) => SameRun s.2 t.2) V
      (onSnd act) (onSnd act') := by
  constructor
  intro s t hst
  have hends := (Simulates.onSnd (P := fun (_ : χ) (_ : ξ) => True) h).ends s t ⟨trivial, hst⟩
  exact hends.imp (fun _ _ h => h.2) fun _ _ h => h

/-- The callback does the same whatever the clock. -/
theorem callback_simulates {χ ξ : Type} {now : EStateM Failure χ Int} {now' : EStateM Failure ξ Int}
    (hnow : Ticks now) (hnow' : Ticks now') (h : SameCall call call') :
    Simulates Failure.exceptionClass (fun (s : χ × Run) (t : ξ × Run) => SameRun s.2 t.2)
      (fun _ _ => True) (callback logsInfo cfg now call) (callback logsInfo cfg now' call') := by
  rw [callback, callback, h.header]
  split
  · refine (onSnd_simulates (Simulates.modify ?_)).bind fun _ _ _ => Simulates.throw rfl
    exact fun _ _ h => ⟨⟨h.stats, h.out, h.perSymbol⟩, rfl⟩
  · apply Simulates.bind (hnow.simulates hnow')
    intro ts ts' _
    apply Simulates.bind (onSnd_simulates (generateInside_simulates h _ _))
    rintro reported _ rfl
    split
    · exact Simulates.pure trivial
    · rw [h.name]
      split
      · exact onSnd_simulates (samplePerSymbol_simulates _ _ _ _)
      · exact Simulates.pure trivial

end Callback

/-! ## The clock and the memory -/

section Input

variable {χ : Type} {β : Side → Type} [BookType β] {now : EStateM Failure χ Int}
  {messages : List (List UInt8)}

/-- A clock that shows the same time always. -/
def steady : EStateM Failure Unit Int := return 0

theorem steady_ticks : Ticks steady := fun c => ⟨0, c, rfl⟩

/-- The messages of the input are handled one after the other, whatever the clock and whatever the
memory held before. -/
theorem processInput_simulates (logsInfo : Bool) (cfg : Config) (hnow : Ticks now)
    (leftover : IStream → Memory)
    (hmessages : ∀ message ∈ messages, message.length < 65536 ∧ Wire.Decisive message) :
    Simulates Failure.exceptionClass
      (ComputeBook.SameFeed fun (s : χ × Run) (t : Unit × Run) => SameRun s.2 t.2) (fun _ _ => True)
      (processInput β logsInfo cfg now leftover (encodeBlocks messages))
      (ComputeBook.handleRecords (callback logsInfo cfg steady) messages) := by
  apply ComputeBook.processIostream_simulates
  · intro call recvts recvts'
    exact callback_simulates hnow steady_ticks ⟨rfl, rfl, rfl, rfl, rfl, rfl, rfl, rfl⟩
  · intro u w h
    obtain ⟨t, c, hrun⟩ := hnow u.1
    exact ⟨t, (c, u.2), onFst_run_ok hrun, h⟩
  · exact hmessages

end Input

/-! ## Two types of books -/

section Books

open ComputeBook ShortStringField

/-- The books of the two programs and books whose keys are names, over map-based sides, agree. -/
structure SameNamed (S : Wire.StockT → Prop) (n : ComputeBook Name MapBasedBookSide)
    (ca : ComputeBook Wire.StockT ArrayBasedBookSide) (cm : ComputeBook Wire.StockT MapBasedBookSide) :
    Prop where
  array : ∃ na, Renamed name S ca na ∧ SameBooks na n
  map : Renamed name S cm n
  consistent : n.Consistent

variable {S : Wire.StockT → Prop} {n : ComputeBook Name MapBasedBookSide}
  {ca : ComputeBook Wire.StockT ArrayBasedBookSide} {cm : ComputeBook Wire.StockT MapBasedBookSide}

/-- Neither callback is invoked, or both are, with what they cannot tell apart. -/
inductive SameCalled : Option (Callback Wire.StockT ArrayBasedBookSide) →
    Option (Callback Wire.StockT MapBasedBookSide) → Prop
  | none : SameCalled none none
  | some {call : Callback Wire.StockT ArrayBasedBookSide}
      {call' : Callback Wire.StockT MapBasedBookSide} (h : SameCall call call') :
      SameCalled (some call) (some call')

theorem SameAnswer.of_some {κ : Type} {call : Callback κ ArrayBasedBookSide}
    {call' : Callback κ MapBasedBookSide} (h : SameAnswer (.ok (some call)) (.ok (some call'))) :
    call.header = call'.header ∧ call.update = call'.update ∧
      call.updatedBook.view = call'.updatedBook.view := by
  cases h with
  | callback header update b m hview => exact ⟨rfl, rfl, hview⟩

theorem sameCalled_of_sameAnswer {a : Option (Callback Wire.StockT ArrayBasedBookSide)}
    {b : Option (Callback Wire.StockT MapBasedBookSide)}
    (h : SameAnswer (.ok (a.map (Callback.mapStock name))) (.ok (b.map (Callback.mapStock name)))) :
    SameCalled a b := by
  cases a with
  | none =>
      cases b with
      | none => exact .none
      | some call' => cases h
  | some call =>
      cases b with
      | none => cases h
      | some call' =>
          obtain ⟨hheader, hupdate, hview⟩ := SameAnswer.of_some h
          exact .some ⟨hheader, congrArg (·.buySellIndicator) hupdate, congrArg (·.px) hupdate,
            congrArg (·.cxlreplx) hupdate, congrArg (·.oldpx) hupdate,
            congrArg (fun u => u.stock.chars) hupdate, congrArg BookView.bestBid hview,
            congrArg BookView.bestOffer hview⟩

/-- A message of the feed in both programs -/
theorem SameNamed.handleMessage (h : SameNamed S n ca cm) {msg : Message Wire.StockT}
    (hstock : ∀ k, msg.stock? = some k → S k) (htrade : n.Tradable (0, msg.mapStock name)) :
    Ends Failure.exceptionClass
      (SameNamed S ((machine Name MapBasedBookSide).step n (0, msg.mapStock name)).2) SameCalled
      ((ComputeBook.handleMessage 0 msg).run ca) ((ComputeBook.handleMessage 0 msg).run cm) := by
  obtain ⟨⟨na, hrenamed, hsame⟩, hmap, hcons⟩ := h
  obtain ⟨oa, na', om, n', hra, hrm, hanswer, hsame'⟩ := handleMessage_same hsame hcons htrade
  have hcons' := (htrade.admissible.outcome hcons).2
  have hstep : (machine Name MapBasedBookSide).step n (0, msg.mapStock name) = (.ok om, n') :=
    Machine.ofAction_step_ok hrm
  rw [hstep] at hcons' ⊢
  have harray : Ends id (Renamed name S) (SameCalls name) ((ComputeBook.handleMessage 0 msg).run ca)
    ((ComputeBook.handleMessage 0 (msg.mapStock name)).run na) :=
    (handleMessage_renamed hstock).ends ca na hrenamed
  have hmaps : Ends id (Renamed name S) (SameCalls name) ((ComputeBook.handleMessage 0 msg).run cm)
    ((ComputeBook.handleMessage 0 (msg.mapStock name)).run n) :=
    (handleMessage_renamed hstock).ends cm n hmap
  rw [hra] at harray
  rw [hrm] at hmaps
  obtain ⟨a, ca', hca, rfl, hrenamed'⟩ := harray.of_ok
  obtain ⟨b, cm', hcm, rfl, hmap'⟩ := hmaps.of_ok
  rw [hca, hcm]
  exact ⟨sameCalled_of_sameAnswer hanswer, ⟨na', hrenamed', hsame'⟩, hmap', hcons'⟩

variable {logsInfo : Bool} {cfg : Config}

/-- The messages of a feed, about names -/
def named (messages : List (List UInt8)) : List (Int × Message Name) :=
  (feed messages).map (renameInput name)

theorem named_cons (message : List UInt8) (messages : List (List UInt8)) :
    named (message :: messages) = named [message] ++ named messages := by
  rw [named, named, named, ← List.map_append, feed, feed, feed, List.flatMap_singleton,
    List.flatMap_cons]

/-- The states of the two programs agree. -/
def Agrees (S : Wire.StockT → Prop) (n : ComputeBook Name MapBasedBookSide)
    (s : ComputeBook Wire.StockT ArrayBasedBookSide × Unit × Run)
    (t : ComputeBook Wire.StockT MapBasedBookSide × Unit × Run) : Prop :=
  SameNamed S n s.1 t.1 ∧ SameRun s.2.2 t.2.2

variable {s : ComputeBook Wire.StockT ArrayBasedBookSide × Unit × Run}
  {t : ComputeBook Wire.StockT MapBasedBookSide × Unit × Run}

theorem Agrees.handleDecoded (h : Agrees S n s t) {msg : Message Wire.StockT}
    (hstock : ∀ k, msg.stock? = some k → S k) (htrade : n.Tradable (0, msg.mapStock name)) :
    Ends Failure.exceptionClass
      (Agrees S ((machine Name MapBasedBookSide).step n (0, msg.mapStock name)).2) (fun _ _ => True)
      ((handleDecoded (callback logsInfo cfg steady) (some msg)).run s)
      ((handleDecoded (callback logsInfo cfg steady) (some msg)).run t) := by
  apply Ends.bind (Simulates.onFst_ends (P := fun s t : Unit × Run => SameRun s.2 t.2)
    (h.1.handleMessage hstock htrade) h.2)
  · intro a b s' t' hcalled hnext
    cases hcalled with
    | none => exact ⟨trivial, hnext⟩
    | some hcall => exact (callback_simulates steady_ticks steady_ticks hcall).onSnd.ends s' t' hnext
  · exact fun _ _ h => h

theorem Agrees.handleBuffer (h : Agrees S n s t) {message : List UInt8}
    (hstocks : ∀ i ∈ feed [message], ∀ k, i.2.stock? = some k → S k)
    (htrade : (machine Name MapBasedBookSide).Along Tradable n (named [message])) :
    Ends Failure.exceptionClass
      (Agrees S ((machine Name MapBasedBookSide).run n (named [message])).2) (fun _ _ => True)
      ((handleBuffer (callback logsInfo cfg steady) 0 0 0 (Memory.ofList message) message.length).run s)
      ((handleBuffer (callback logsInfo cfg steady) 0 0 0 (Memory.ofList message)
        message.length).run t) := by
  rw [handleBuffer_eq, handleBuffer_eq]
  rw [named] at htrade ⊢
  rw [feed, List.flatMap_singleton] at hstocks htrade ⊢
  cases hdecode : decode message with
  | error e => exact ⟨rfl, h⟩
  | ok decoded =>
      rw [hdecode] at hstocks htrade
      cases decoded with
      | none => exact ⟨trivial, h⟩
      | some msg =>
          exact h.handleDecoded (hstocks _ (List.mem_singleton.2 rfl)) htrade.1

theorem Agrees.handleRecords (h : Agrees S n s t) {messages : List (List UInt8)}
    (hstocks : ∀ i ∈ feed messages, ∀ k, i.2.stock? = some k → S k)
    (htrade : (machine Name MapBasedBookSide).Along Tradable n (named messages)) :
    Ends Failure.exceptionClass
      (fun s t => SameRun s.2.2 t.2.2) (fun _ _ => True)
      ((handleRecords (callback logsInfo cfg steady) messages).run s)
      ((handleRecords (callback logsInfo cfg steady) messages).run t) := by
  induction messages generalizing n s t with
  | nil => exact ⟨trivial, h.2⟩
  | cons message messages ih =>
      rw [named_cons, Machine.along_append] at htrade
      rw [feed, List.flatMap_cons] at hstocks
      refine (h.handleBuffer ?_ htrade.1).bind ?_ fun _ _ h => h.2
      · intro i hi
        rw [feed, List.flatMap_singleton] at hi
        exact hstocks i (List.mem_append_left _ hi)
      · intro a b s' t' _ hnext
        exact ih hnext (fun i hi => hstocks i (List.mem_append_right _ hi)) htrade.2

end Books

/-! ## The program -/

section Program

open OfflineFeedStatistics (SameCounts SameRow)

variable {χ ξ : Type} {β γ : Side → Type} [BookType β] [BookType γ] {logsInfo : Bool} {cfg : Config}
  {bookCfg : BookType.Config β} {bookCfg' : BookType.Config γ} {now : EStateM Failure χ Int}
  {now' : EStateM Failure ξ Int} {leftover leftover' : IStream → Memory} {clock : χ} {clock' : ξ}
  {hashRange : List UInt8 → UInt64} {cfg' : Config} {input input' : List UInt8}

theorem sameRow_refl_header :
    SameRow OfflineFeedStatistics.printCsvHeader OfflineFeedStatistics.printCsvHeader := by
  have hlast : OfflineFeedStatistics.LatencyFields (OfflineFeedStatistics.csvHeader.drop 41) :=
    ⟨rfl, by decide⟩
  refine ⟨OfflineFeedStatistics.csvHeader.take 41, _, _, ?_, ?_, hlast, hlast⟩
  · rw [List.take_append_drop]
    rfl
  · rw [List.take_append_drop]
    rfl

/-- The rows printed differ in the latencies alone. -/
theorem SameWritten.printStats {run run' : Run} (h : SameWritten run run') :
    SameResult (List.Forall₂ SameRow) (printStats run) (printStats run') := by
  apply SameResult.bind (V := List.Forall₂ SameRow)
  · refine SameResult.mapM ?_ h.perSymbol
    rintro ⟨name, s⟩ ⟨_, t⟩ ⟨rfl, hst⟩
    exact hst.printCsv _
  · intro rows rows' hrows
    apply (h.stats.printCsv "__aggregate__").bind
    intro row row' hrow
    exact .ok (.cons sameRow_refl_header (List.rel_append hrows (.cons hrow .nil)))

/-- Two programs whose books report the same read their inputs in the same way. -/
theorem readInput_ends {run run' : Run}
    (hinput : Ends Failure.exceptionClass (fun s t => SameRun s.2.2 t.2.2) (fun _ _ => True)
      ((processInput β logsInfo cfg now leftover input).run
        (.make (ShortStringField.hashValue hashRange) bookCfg, clock, run))
      ((processInput γ logsInfo cfg' now' leftover' input').run
        (.make (ShortStringField.hashValue hashRange) bookCfg', clock', run'))) :
    Ends Failure.exceptionClass SameRun (fun _ _ => True)
      ((readInput β bookCfg hashRange logsInfo cfg now leftover clock input).run run)
      ((readInput γ bookCfg' hashRange logsInfo cfg' now' leftover' clock' input').run run') := by
  cases hx : (processInput β logsInfo cfg now leftover input).run
      (.make (ShortStringField.hashValue hashRange) bookCfg, clock, run) with
  | ok a s =>
      rw [hx] at hinput
      cases hy : (processInput γ logsInfo cfg' now' leftover' input').run
          (.make (ShortStringField.hashValue hashRange) bookCfg', clock', run') with
      | ok b t =>
          rw [hy] at hinput
          rw [readInput_ok hx, readInput_ok hy]
          exact ⟨trivial, hinput.2⟩
      | error e t =>
          rw [hy] at hinput
          exact hinput.elim
  | error e s =>
      rw [hx] at hinput
      cases hy : (processInput γ logsInfo cfg' now' leftover' input').run
          (.make (ShortStringField.hashValue hashRange) bookCfg', clock', run') with
      | ok b t =>
          rw [hy] at hinput
          exact hinput.elim
      | error e' t =>
          rw [hy] at hinput
          rw [readInput_error hx, readInput_error hy, hinput.2.aborted]
          split
          · exact ⟨trivial, hinput.2⟩
          · exact hinput

/-- The end of two programs that wrote the same. -/
theorem runInside_ends {V : Unit → Unit → Prop} {run run' : Run}
    (hread : Ends Failure.exceptionClass SameWritten V
      ((readInput β bookCfg hashRange logsInfo cfg now leftover clock input).run run)
      ((readInput γ bookCfg' hashRange logsInfo cfg' now' leftover' clock' input').run run')) :
    Ends Failure.exceptionClass SameWritten (List.Forall₂ SameRow)
      ((runInside β bookCfg hashRange logsInfo cfg now leftover clock input).run run)
      ((runInside γ bookCfg' hashRange logsInfo cfg' now' leftover' clock' input').run run') := by
  refine hread.bind (fun _ _ r r' _ h => ?_) fun _ _ h => h
  have hend : Simulates Failure.exceptionClass SameWritten (List.Forall₂ SameRow)
      (do
        let run ← get
        let final ← liftExcept (OfflineFeedStatistics.logFinalProgress logsInfo run.stats)
        modify fun run => { run with log := run.log ++ final }
        liftExcept (printStats run))
      (do
        let run ← get
        let final ← liftExcept (OfflineFeedStatistics.logFinalProgress logsInfo run.stats)
        modify fun run => { run with log := run.log ++ final }
        liftExcept (printStats run)) := by
    apply Simulates.bind Simulates.get
    intro run run' h
    apply Simulates.bind (liftExcept_same (h.stats.logProgress logsInfo _))
    intro final final' _
    refine Simulates.bind (Simulates.modify ?_) fun _ _ _ => liftExcept_same h.printStats
    exact fun _ _ h => ⟨h.stats, h.out, h.perSymbol⟩
  exact hend.ends r r' h

theorem sameRun_start {run : Run} (h : start cfg = .ok run) : SameRun run run := by
  obtain ⟨stats, hmake, rfl⟩ := start_eq_ok h
  exact ⟨⟨OfflineFeedStatistics.sameCounts_make hmake, rfl, .empty⟩, rfl⟩

variable {messages : List (List UInt8)}

/-- Two programs that read their inputs in the same way end alike. -/
theorem endsAlike_of_input {run : Run}
    (hinput : Ends Failure.exceptionClass (fun s t => SameRun s.2.2 t.2.2) (fun _ _ => True)
      ((processInput β logsInfo cfg now leftover input).run
        (.make (ShortStringField.hashValue hashRange) bookCfg, clock, run))
      ((processInput γ logsInfo cfg' now' leftover' input').run
        (.make (ShortStringField.hashValue hashRange) bookCfg', clock', run))) :
    Ends Failure.exceptionClass (fun s t => s.out = t.out) (List.Forall₂ SameRow)
      ((runInside β bookCfg hashRange logsInfo cfg now leftover clock input).run run)
      ((runInside γ bookCfg' hashRange logsInfo cfg' now' leftover' clock' input').run run) :=
  (runInside_ends ((readInput_ends hinput).imp (fun _ _ h => h.toSameWritten) fun _ _ h => h)).imp
    (fun _ _ h => h.out) fun _ _ h => h

/-- A clock that is never read twice at the same time. -/
def counting : EStateM Failure Int Int := modifyGet fun c => (c, c + 1)

theorem counting_ticks : Ticks counting := fun c => ⟨c, c + 1, rfl⟩

theorem start_default : ∃ run, start .default = .ok run := by
  obtain ⟨r, s, hmake, -⟩ := OfflineFeedStatistics.make_ok .default rfl
    OfflineFeedStatistics.fitsTypes_default
  refine ⟨⟨s, [], [], .empty, false⟩, ?_⟩
  rw [start, show Config.default.stats = .default from rfl, hmake]
  rfl

theorem twoOrders_decisive : ∀ message ∈ [buyOrder 1, buyOrder 2],
    message.length < 65536 ∧ Wire.Decisive message := by
  rw [List.forall_mem_cons, List.forall_mem_singleton]
  exact ⟨⟨by decide, decisive_buyOrder 1⟩, ⟨by decide, decisive_buyOrder 2⟩⟩

open ComputeBook (feed) in
/-- The securities of a feed that compare equal have equal hash codes. -/
def HashesAgree (hashRange : List UInt8 → UInt64) (messages : List (List UInt8)) : Prop :=
  ∀ a ∈ ShortStringField.stocks (feed messages), ∀ b ∈ ShortStringField.stocks (feed messages),
    (a == b) = true → ShortStringField.hashValue hashRange a = ShortStringField.hashValue hashRange b

open ComputeBook (feed) in
theorem stock_mem_stocks (i) (hi : i ∈ feed messages) (stock) (hstock : i.2.stock? = some stock) :
    stock ∈ ShortStringField.stocks (feed messages) :=
  List.mem_filterMap.2 ⟨i, hi, hstock⟩

open ComputeBook (feed) in
/-- The books at the start are those of the names. -/
theorem HashesAgree.renamed (h : HashesAgree hashRange messages) (hashName : Name → UInt64)
    (bookCfg : BookType.Config β) :
    ComputeBook.Renamed ShortStringField.name (· ∈ ShortStringField.stocks (feed messages))
      (.make (ShortStringField.hashValue hashRange) bookCfg : ComputeBook _ β)
      (.make hashName bookCfg) :=
  ComputeBook.renamed_make bookCfg fun a b ha hb => ShortStringField.sameKey_name (h a ha b hb)

open ComputeBook (Tradable) in
/-- The books at the start agree, and so the two programs handle the messages of a feed alike. -/
theorem records_same (hashName : Name → UInt64) (hsize : 2 ≤ cfg.bookCfg.maxSize)
    (hhash : HashesAgree hashRange messages)
    (htrade : (ComputeBook.machine Name MapBasedBookSide).Along Tradable (.make hashName ())
      (named messages)) {run run' : Run} (h : SameRun run run') :
    Ends Failure.exceptionClass (fun s t => SameRun s.2.2 t.2.2) (fun _ _ => True)
      ((ComputeBook.handleRecords (callback logsInfo cfg steady) messages).run
        ((.make (ShortStringField.hashValue hashRange) cfg.bookCfg :
          ComputeBook Wire.StockT ArrayBasedBookSide), (), run))
      ((ComputeBook.handleRecords (callback logsInfo cfg steady) messages).run
        ((.make (ShortStringField.hashValue hashRange) () : ComputeBook Wire.StockT MapBasedBookSide),
          (), run')) := by
  have hinit := SameNamed.mk
    ⟨_, hhash.renamed (β := ArrayBasedBookSide) hashName cfg.bookCfg,
      ComputeBook.sameBooks_make hashName hsize⟩
    (hhash.renamed (β := MapBasedBookSide) hashName ()) (ComputeBook.consistent_make hashName trivial)
  exact Agrees.handleRecords ⟨hinit, h⟩ stock_mem_stocks htrade

/-- With array-based books, of two levels or more at each side, the program ends as it does with
map-based books: it writes the same lines, and prints the same up to latencies. -/
theorem array_option_same_output (hashRange : List UInt8 → UInt64) (hashName : Name → UInt64)
    (logsInfo : Bool) (cfg : Config) (hsize : 2 ≤ cfg.bookCfg.maxSize) (hnow : Ticks now)
    (hnow' : Ticks now') (leftover leftover' : IStream → Memory) (clock : χ) (clock' : ξ)
    (hmessages : ∀ message ∈ messages, message.length < 65536 ∧ Wire.Decisive message)
    (hhash : HashesAgree hashRange messages)
    (hshares : ∀ i ∈ named messages, i.2.SharesInRange)
    (hprices : ∀ i ∈ named messages, i.2.PriceIn QuotedPrice)
    (hfit : (ComputeBook.machine Name MapBasedBookSide).Along
      (fun cm i => ((ComputeBook.machine Name MapBasedBookSide).step cm i).2.LiveSharesFit)
      (.make hashName ()) (named messages)) {run : Run} (hstart : start cfg = .ok run) :
    Ends Failure.exceptionClass (fun s t => s.out = t.out) (List.Forall₂ SameRow)
      ((main hashRange logsInfo { cfg with enableArrayBased := true } now leftover clock
        (MoldUdpPacket.encodeBlocks messages)).run run)
      ((main hashRange logsInfo { cfg with enableArrayBased := false } now' leftover' clock'
        (MoldUdpPacket.encodeBlocks messages)).run run) := by
  have htrade := ComputeBook.along_tradable hshares hprices hfit
  show Ends Failure.exceptionClass _ _
    ((runInside ArrayBasedBookSide cfg.bookCfg hashRange logsInfo cfg now leftover clock _).run run)
    ((runInside MapBasedBookSide () hashRange logsInfo cfg now' leftover' clock' _).run run)
  apply endsAlike_of_input
  have hsame := sameRun_start hstart
  have harray := (processInput_simulates (β := ArrayBasedBookSide) logsInfo cfg hnow leftover
    hmessages).ends (.make (ShortStringField.hashValue hashRange) cfg.bookCfg, clock, run)
    (.make (ShortStringField.hashValue hashRange) cfg.bookCfg, (), run) ⟨rfl, hsame⟩
  have hmap := ((processInput_simulates (β := MapBasedBookSide) logsInfo cfg hnow' leftover'
    hmessages).ends (.make (ShortStringField.hashValue hashRange) (), clock', run)
    (.make (ShortStringField.hashValue hashRange) (), (), run) ⟨rfl, hsame⟩).symm
  refine ((harray.trans (records_same hashName hsize hhash htrade hsame)).trans hmap).imp ?_
    fun _ _ _ => trivial
  rintro s m ⟨t, ⟨u, hsu, hut⟩, htm⟩
  exact (hsu.2.trans hut).trans htm.2.symm

theorem named_twoOrders : named [buyOrder 1, buyOrder 2] =
    [(0, .addOrder ⟨⟨65, 1, 0, 1⟩, 1, .buy, 100, ⟨[72, 83, 65, 82, 84]⟩, 100000⟩),
      (0, .addOrder ⟨⟨65, 1, 0, 1⟩, 2, .buy, 100, ⟨[72, 83, 65, 82, 84]⟩, 100000⟩)] := by
  decide +kernel

theorem twoOrders_fit :
    (ComputeBook.machine Name MapBasedBookSide).Along
      (fun cm i => ((ComputeBook.machine Name MapBasedBookSide).step cm i).2.LiveSharesFit)
      (.make (fun _ => 0) ()) (named [buyOrder 1, buyOrder 2]) := by
  rw [named_twoOrders]
  refine ⟨fun stock s px => ?_, fun stock s px => ?_, trivial⟩
  · show FitsInt ((if ⟨[72, 83, 65, 82, 84]⟩ = stock ∧ Side.buy = s ∧ 100000 = px then 100 else 0) + 0)
    split_ifs <;> decide
  · show FitsInt ((if ⟨[72, 83, 65, 82, 84]⟩ = stock ∧ Side.buy = s ∧ 100000 = px then 100 else 0) +
      ((if ⟨[72, 83, 65, 82, 84]⟩ = stock ∧ Side.buy = s ∧ 100000 = px then 100 else 0) + 0))
    split_ifs <;> decide

theorem twoOrders_shares : ∀ i ∈ named [buyOrder 1, buyOrder 2], i.2.SharesInRange := by
  rw [named_twoOrders]
  simp [Message.SharesInRange, FitsInt]

theorem twoOrders_prices : ∀ i ∈ named [buyOrder 1, buyOrder 2], i.2.PriceIn QuotedPrice := by
  rw [named_twoOrders]
  simp [Message.PriceIn, QuotedPrice, TickAligned, maxPriceFieldValue, price4]

/-- Two orders, with books of two levels at each side. -/
theorem array_option_same_output_two_orders : ∃ run, start .default = .ok run ∧
    Ends Failure.exceptionClass (fun s t => s.out = t.out) (List.Forall₂ SameRow)
      ((main (fun _ => 0) true { Config.default with enableArrayBased := true } steady (fun _ _ => 0) ()
        (MoldUdpPacket.encodeBlocks [buyOrder 1, buyOrder 2])).run run)
      ((main (fun _ => 0) true { Config.default with enableArrayBased := false } counting
        (fun _ _ => 1) 0 (MoldUdpPacket.encodeBlocks [buyOrder 1, buyOrder 2])).run run) := by
  obtain ⟨run, hstart⟩ := start_default
  exact ⟨run, hstart, array_option_same_output _ (fun _ => 0) true .default (by decide) steady_ticks
    counting_ticks _ _ _ _ twoOrders_decisive (fun _ _ _ _ _ => rfl) twoOrders_shares twoOrders_prices
    twoOrders_fit hstart⟩

end Program

end InsideTool

end JayBeams.Itch5
