import JayBeams.Itch5.InsideEquivalence

/-!
# Stopping before the end

With `stop_after_seconds` the program stops at the first update at or after the given time of the day.
It ends as it does without the option on the messages before that update, and writes no line of that time
or later (`stop_after_prefix`).
-/

set_option autoImplicit false

namespace JayBeams

open Bytes Containers Machines Machines.Machine

namespace Itch5

namespace InsideTool

open ComputeBook (handleMessage handleDecoded handleRecords handleRecords_cons_ok
  handleRecords_cons_error decode)

/-- The configuration of a program that reads its input to the end. -/
def Config.unstopped (cfg : Config) : Config := { cfg with stopAfterSeconds := 0 }

theorem Config.not_stops_unstopped (cfg : Config) (header : MessageHeader) :
    ¬ cfg.unstopped.Stops header := fun h => h.1 rfl

section Records

variable {β : Side → Type} [BookType β] {logsInfo : Bool} {cfg : Config}

/-- Before the time to stop, the callback is that of a program without the option. -/
theorem callback_unstopped {χ : Type} (now : EStateM Failure χ Int) {call : Callback Wire.StockT β}
    (h : ¬ cfg.Stops call.header) :
    callback logsInfo cfg now call = callback logsInfo cfg.unstopped now call := by
  rw [callback, callback, if_neg h, if_neg (cfg.not_stops_unstopped _)]
  rfl

theorem callback_stopped {χ : Type} (now : EStateM Failure χ Int) {call : Callback Wire.StockT β}
    (h : cfg.Stops call.header) (s : χ × Run) :
    (callback logsInfo cfg now call).run s =
      .error abortProcessIostream (s.1, { s.2 with aborted := true }) := by
  rw [callback, if_pos h]
  rfl

/-- The program stopped: it raised its exception, and only the flag tells its run from the given one. -/
def Aborts (run : Run) : EStateM.Result Failure (ComputeBook Wire.StockT β × Unit × Run) Unit → Prop
  | .ok _ _ => False
  | .error e s => e = abortProcessIostream ∧ s.2.2 = { run with aborted := true }

/-- A message is handled as without the option, or it is at or after the time to stop. -/
theorem handleDecoded_stop (logsInfo : Bool) (cfg : Config) (s : ComputeBook Wire.StockT β × Unit × Run)
    (decoded : Option (Message Wire.StockT)) :
    (handleDecoded (callback logsInfo cfg steady) decoded).run s =
        (handleDecoded (callback logsInfo cfg.unstopped steady) decoded).run s ∨
      (∃ msg, decoded = some msg ∧ cfg.Stops msg.header) ∧
        Aborts s.2.2 ((handleDecoded (callback logsInfo cfg steady) decoded).run s) := by
  cases decoded with
  | none => exact Or.inl rfl
  | some msg =>
      rw [handleDecoded, handleDecoded, EStateM.run_bind, EStateM.run_bind]
      have hheader := (ComputeBook.handleMessage_header (β := β) 0 msg).fulfils s.1 trivial
      cases hrun : (handleMessage 0 msg).run s.1 with
      | error e cb =>
          rw [onFst_run_error hrun]
          exact Or.inl rfl
      | ok called cb =>
          rw [hrun] at hheader
          rw [onFst_run_ok hrun]
          cases called with
          | none => exact Or.inl rfl
          | some call =>
              dsimp only
              by_cases hstop : cfg.Stops call.header
              · have hstopped : (onSnd (callback logsInfo cfg steady call)).run (cb, s.2) =
                    .error abortProcessIostream (cb, s.2.1, { s.2.2 with aborted := true }) :=
                  onSnd_run_error (callback_stopped steady hstop s.2)
                rw [hstopped]
                exact Or.inr ⟨⟨msg, rfl, hheader call rfl ▸ hstop⟩, rfl, rfl⟩
              · rw [callback_unstopped steady hstop]
                exact Or.inl rfl

/-- The messages are handled as without the option, up to the first one at which the program stops. -/
theorem handleRecords_stop (logsInfo : Bool) (cfg : Config) (s : ComputeBook Wire.StockT β × Unit × Run)
    (messages : List (List UInt8)) :
    (handleRecords (callback logsInfo cfg steady) messages).run s =
        (handleRecords (callback logsInfo cfg.unstopped steady) messages).run s ∨
      ∃ before message after msg t, messages = before ++ message :: after ∧
        decode message = .ok (some msg) ∧ cfg.Stops msg.header ∧
        (handleRecords (callback logsInfo cfg.unstopped steady) before).run s = .ok () t ∧
        Aborts t.2.2 ((handleRecords (callback logsInfo cfg steady) messages).run s) := by
  induction messages generalizing s with
  | nil => exact Or.inl rfl
  | cons message messages ih =>
      cases hdecode : decode message with
      | error e =>
          rw [handleRecords_cons_error _ hdecode, handleRecords_cons_error _ hdecode]
          exact Or.inl rfl
      | ok decoded =>
          rw [handleRecords_cons_ok _ hdecode, handleRecords_cons_ok _ hdecode, EStateM.run_bind,
            EStateM.run_bind]
          rcases handleDecoded_stop logsInfo cfg s decoded with hsame | ⟨⟨msg, rfl, hstop⟩, haborts⟩
          · rw [hsame]
            cases hfirst : (handleDecoded (callback logsInfo cfg.unstopped steady) decoded).run s with
            | error e t => exact Or.inl rfl
            | ok u t =>
                rcases ih t with hrest |
                  ⟨before, message', after, msg, t', rfl, hmsg, hstop, hbefore, habort⟩
                · exact Or.inl hrest
                · refine Or.inr ⟨message :: before, message', after, msg, t', rfl, hmsg, hstop, ?_,
                    habort⟩
                  rw [handleRecords_cons_ok _ hdecode, EStateM.run_bind, hfirst]
                  exact hbefore
          · refine Or.inr ⟨[], message, messages, msg, s, rfl, hdecode, hstop, rfl, ?_⟩
            cases hrun : (handleDecoded (callback logsInfo cfg steady) (some msg)).run s with
            | ok u t =>
                rw [hrun] at haborts
                exact haborts.elim
            | error e t =>
                rw [hrun] at haborts
                exact haborts

end Records

/-! ## Lines before the time to stop -/

/-- Every line is of a time before the given one. -/
def Earlier (bound : Int) (run : Run) : Prop := ∀ line ∈ run.out, line.timestamp < bound

theorem ignores_earlier (bound : Int) : Ignores (Earlier bound) :=
  ⟨fun _ _ h => h, fun _ _ h => h, fun _ _ h => h⟩

section Earlier

variable {β : Side → Type} [BookType β] {χ : Type} {logsInfo : Bool} {cfg : Config}

theorem callback_earlier (hstop : cfg.stopAfterSeconds ≠ 0) (now : EStateM Failure χ Int)
    (call : Callback Wire.StockT β) :
    Meets (fun s : χ × Run => Earlier (1000000000 * cfg.stopAfterSeconds) s.2)
      (callback logsInfo cfg now call)
      (fun _ s => Earlier (1000000000 * cfg.stopAfterSeconds) s.2)
      (fun _ s => Earlier (1000000000 * cfg.stopAfterSeconds) s.2) := by
  apply callback_keeps (ignores_earlier _) now
  · exact fun _ _ h => h
  · intro hgoes run line hline h
    have hts : call.header.timestamp < 1000000000 * cfg.stopAfterSeconds :=
      not_le.1 fun hle => hgoes ⟨hstop, hle⟩
    rw [Earlier, List.forall_mem_append, List.forall_mem_singleton, hline]
    exact ⟨h, hts⟩

theorem readInput_keeps {I : Run → Prop} {bookCfg : BookType.Config β} {hashRange : List UInt8 → UInt64}
    {now : EStateM Failure χ Int} {leftover : IStream → Memory} {clock : χ} {input : List UInt8}
    (h : Meets (fun s : ComputeBook Wire.StockT β × χ × Run => I s.2.2)
      (processInput β logsInfo cfg now leftover input) (fun _ s => I s.2.2) (fun _ s => I s.2.2)) :
    Keeps I (readInput β bookCfg hashRange logsInfo cfg now leftover clock input) := by
  constructor
  intro run hrun
  have hend := h.fulfils (.make (ShortStringField.hashValue hashRange) bookCfg, clock, run) hrun
  cases hx : (processInput β logsInfo cfg now leftover input).run
      (.make (ShortStringField.hashValue hashRange) bookCfg, clock, run) with
  | ok u s =>
      rw [hx] at hend
      rw [readInput_ok hx]
      exact hend
  | error e s =>
      rw [hx] at hend
      rw [readInput_error hx]
      split
      · exact hend
      · exact hend

/-- The program writes no line at its time to stop or later. -/
theorem runInside_earlier (logsInfo : Bool) (hstop : cfg.stopAfterSeconds ≠ 0)
    (bookCfg : BookType.Config β) (hashRange : List UInt8 → UInt64) (now : EStateM Failure χ Int)
    (leftover : IStream → Memory) (clock : χ) (input : List UInt8) :
    Keeps (Earlier (1000000000 * cfg.stopAfterSeconds))
      (runInside β bookCfg hashRange logsInfo cfg now leftover clock input) := by
  apply Keeps.bind
  · apply readInput_keeps
    apply processIostreamMlist_meets
    · exact (Meets.onFst_frame now).onSnd
    · exact ComputeBook.messageHandler_meets (callback_earlier hstop now) (fun _ h => h)
        (fun _ _ h => h) _
    · exact fun _ _ h => h
  · intro _
    apply Keeps.bind Keeps.get
    intro run
    apply Keeps.bind (keeps_liftExcept _)
    intro final
    exact Keeps.bind (Keeps.modify fun _ h => h) fun _ => keeps_liftExcept _

end Earlier

/-! ## The program -/

section Program

open OfflineFeedStatistics (SameRow)

variable {χ ξ : Type} {β : Side → Type} [BookType β] {now : EStateM Failure χ Int}
  {now' : EStateM Failure ξ Int} {messages : List (List UInt8)} {run : Run}

/-- A program whose messages were handled up to its time to stop is done with its input. -/
theorem readInput_stopped {logsInfo : Bool} {cfg : Config} {bookCfg : BookType.Config β}
    {hashRange : List UInt8 → UInt64} {leftover : IStream → Memory} {clock : χ} {input : List UInt8}
    {last : Run} {records : EStateM.Result Failure (ComputeBook Wire.StockT β × Unit × Run) Unit}
    (hinput : Ends Failure.exceptionClass
      (ComputeBook.SameFeed fun (s : χ × Run) (t : Unit × Run) => SameRun s.2 t.2) (fun _ _ => True)
      ((processInput β logsInfo cfg now leftover input).run
        (.make (ShortStringField.hashValue hashRange) bookCfg, clock, run)) records)
    (haborts : Aborts last records) :
    ∃ r, (readInput β bookCfg hashRange logsInfo cfg now leftover clock input).run run = .ok () r ∧
      SameWritten r last := by
  cases records with
  | ok u t => exact haborts.elim
  | error e t =>
      obtain ⟨-, hlast⟩ := haborts
      cases hx : (processInput β logsInfo cfg now leftover input).run
          (.make (ShortStringField.hashValue hashRange) bookCfg, clock, run) with
      | ok u s =>
          rw [hx] at hinput
          exact hinput.elim
      | error e' s =>
          rw [hx] at hinput
          have hsame : SameRun s.2.2 { last with aborted := true } := hlast ▸ hinput.2.2
          refine ⟨s.2.2, ?_, hsame.stats, hsame.out, hsame.perSymbol⟩
          rw [readInput_error hx, hsame.aborted]
          rfl

/-- With a time to stop the program ends as it does without one on the messages before one of that time
or later, or on all of them; and it writes no line of that time or later. -/
theorem stop_after_prefix (bookCfg : BookType.Config β) (hashRange : List UInt8 → UInt64)
    (logsInfo : Bool) {cfg : Config} (hstop : cfg.stopAfterSeconds ≠ 0) (hnow : Ticks now)
    (hnow' : Ticks now') (leftover leftover' : IStream → Memory) (clock : χ) (clock' : ξ)
    (hmessages : ∀ message ∈ messages, message.length < 65536 ∧ Wire.Decisive message)
    (hstart : start cfg = .ok run) :
    ∃ before after, messages = before ++ after ∧
      (∀ message, after.head? = some message → ∃ msg, decode message = .ok (some msg) ∧
        1000000000 * cfg.stopAfterSeconds ≤ msg.header.timestamp) ∧
      Ends Failure.exceptionClass (fun s t => s.out = t.out) (List.Forall₂ SameRow)
        ((runInside β bookCfg hashRange logsInfo cfg now leftover clock
          (MoldUdpPacket.encodeBlocks messages)).run run)
        ((runInside β bookCfg hashRange logsInfo cfg.unstopped now' leftover' clock'
          (MoldUdpPacket.encodeBlocks before)).run run) ∧
      Earlier (1000000000 * cfg.stopAfterSeconds) (finalState
        ((runInside β bookCfg hashRange logsInfo cfg now leftover clock
          (MoldUdpPacket.encodeBlocks messages)).run run)) := by
  have hsame := sameRun_start hstart
  have hearlier : Earlier (1000000000 * cfg.stopAfterSeconds) run := by
    obtain ⟨stats, -, rfl⟩ := start_eq_ok hstart
    exact fun line hline => absurd hline List.not_mem_nil
  have hlines := (runInside_earlier logsInfo hstop bookCfg hashRange now leftover clock
    (MoldUdpPacket.encodeBlocks messages)).final run hearlier
  have hfull := (processInput_simulates (β := β) logsInfo cfg hnow leftover hmessages).ends
    (.make (ShortStringField.hashValue hashRange) bookCfg, clock, run)
    (.make (ShortStringField.hashValue hashRange) bookCfg, (), run) ⟨rfl, hsame⟩
  rcases handleRecords_stop logsInfo cfg
    ((.make (ShortStringField.hashValue hashRange) bookCfg, (), run) :
      ComputeBook Wire.StockT β × Unit × Run) messages with
    hnever | ⟨before, message, after, msg, t, rfl, hmsg, hstops, hbefore, haborts⟩
  · refine ⟨messages, [], (List.append_nil _).symm, (fun message h => by cases h), ?_, hlines⟩
    rw [hnever] at hfull
    have hunstopped := ((processInput_simulates (β := β) logsInfo cfg.unstopped hnow' leftover'
      hmessages).ends (.make (ShortStringField.hashValue hashRange) bookCfg, clock', run)
      (.make (ShortStringField.hashValue hashRange) bookCfg, (), run) ⟨rfl, hsame⟩).symm
    refine endsAlike_of_input ((hfull.trans hunstopped).imp ?_ fun _ _ _ => trivial)
    rintro s m ⟨t, hst, hmt⟩
    exact hst.2.trans hmt.2.symm
  · refine ⟨before, message :: after, rfl, fun message' h => ?_, ?_, hlines⟩
    · obtain rfl := Option.some.inj h
      exact ⟨msg, hmsg, hstops.2⟩
    · rw [List.forall_mem_append] at hmessages
      have hprefix := (processInput_simulates (β := β) logsInfo cfg.unstopped hnow' leftover'
        hmessages.1).ends (.make (ShortStringField.hashValue hashRange) bookCfg, clock', run)
        (.make (ShortStringField.hashValue hashRange) bookCfg, (), run) ⟨rfl, hsame⟩
      rw [hbefore] at hprefix
      obtain ⟨u, m, hinput, -, hm⟩ := hprefix.of_ok
      obtain ⟨r, hread, hwritten⟩ := readInput_stopped hfull haborts
      have hends : Ends Failure.exceptionClass SameWritten (fun _ _ => True)
          ((readInput β bookCfg hashRange logsInfo cfg now leftover clock
            (MoldUdpPacket.encodeBlocks (before ++ message :: after))).run run)
          ((readInput β bookCfg hashRange logsInfo cfg.unstopped now' leftover' clock'
            (MoldUdpPacket.encodeBlocks before)).run run) := by
        rw [hread, readInput_ok hinput]
        exact ⟨trivial, hwritten.trans hm.2.toSameWritten.symm⟩
      exact (runInside_ends hends).imp (fun _ _ h => h.out) fun _ _ h => h

/-- An order more than four seconds after midnight -/
def lateOrder : List UInt8 :=
  [65, 0, 1, 0, 0, 0, 1, 0, 0, 0, 0, 0, 0, 0, 0, 0, 0, 0, 2, 66, 0, 0, 0, 100] ++
    [72, 83, 65, 82, 84, 32, 32, 32] ++ [0, 1, 134, 160]

theorem decisive_lateOrder : Wire.Decisive lateOrder := by
  refine Wire.decisive_of_complete (by simp [lateOrder]) ?_
  have hlength : lateOrder.length = 36 := rfl
  have hfirst : Memory.ofList lateOrder 0 = 65 := rfl
  simp only [Wire.MessageType.Matches, hfirst, hlength]
  decide

/-- A configuration that stops after two seconds -/
def twoSeconds : Config := { Config.default with stopAfterSeconds := 2 }

/-- An order in the first second, and one after the time to stop. -/
theorem stop_after_prefix_late_order : ∃ run before after, start twoSeconds = .ok run ∧
    [buyOrder 1, lateOrder] = before ++ after ∧
    Ends Failure.exceptionClass (fun s t => s.out = t.out) (List.Forall₂ SameRow)
      ((runInside MapBasedBookSide () (fun _ => 0) false twoSeconds steady (fun _ _ => 0) ()
        (MoldUdpPacket.encodeBlocks [buyOrder 1, lateOrder])).run run)
      ((runInside MapBasedBookSide () (fun _ => 0) false twoSeconds.unstopped counting (fun _ _ => 1) 0
        (MoldUdpPacket.encodeBlocks before)).run run) := by
  obtain ⟨run, hstart⟩ : ∃ run, start twoSeconds = .ok run := start_default
  have hmessages : ∀ message ∈ [buyOrder 1, lateOrder],
      message.length < 65536 ∧ Wire.Decisive message := by
    rw [List.forall_mem_cons, List.forall_mem_singleton]
    exact ⟨⟨by decide, decisive_buyOrder 1⟩, ⟨by decide, decisive_lateOrder⟩⟩
  have hstop : twoSeconds.stopAfterSeconds ≠ 0 := by decide
  obtain ⟨before, after, happend, -, hends, -⟩ := stop_after_prefix (β := MapBasedBookSide) ()
    (fun _ => 0) false hstop steady_ticks counting_ticks (fun _ _ => 0) (fun _ _ => 1) () 0 hmessages
    hstart
  exact ⟨run, before, after, hstart, happend, hends⟩

end Program

end InsideTool

end Itch5

end JayBeams
