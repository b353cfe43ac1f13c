import JayBeams.Itch5.MoldUdpFrames
import Mathlib.Data.List.Induction
import Mathlib.Algebra.Ring.Int.Defs

/-!
# The pace of the pacer

The pacer compares the time of a message with the time of the last packet. `Timely` describes a feed
whose times do not decrease, with flushes asked for at the time of the latest message. Then the last
packet is never later than the first message that waits (`Spaced`), and the blocks of a packet are close
in time (`blocks_close`).

The times that the pacer sleeps for add up to no more than the time that the feed took, as long as the
time of the last packet moves on whenever the pacer sleeps (`slept_le`). It does not when a late message
finds an empty buffer, since an empty buffer is not sent, nor when a heartbeat finds an empty buffer
after a refused message, since it takes the time of an old one (`KeepsPace`). The pacer then sleeps for
the same time once more (`slept_twice`).
-/

set_option autoImplicit false

namespace JayBeams.Itch5

open Bytes Machines Machines.Machine MoldUdpProtocol MoldUdpPacket

namespace MoldUdpPacket

/-- The timestamp in the header of the message in a block. -/
def blockTimestamp (message : List UInt8) : Int := Decoder.nanoseconds (Memory.ofList message) 5

/-- The last of the messages comes less than `delay` after the first one. -/
def Close (delay : Int) (messages : List (List UInt8)) : Prop :=
  ∀ first ∈ messages.head?, ∀ last ∈ messages.getLast?,
    blockTimestamp last - blockTimestamp first < delay

/-- The timestamp of a message is that of its block. -/
theorem blockTimestamp_bytes {msg : UnknownMessage} (hlen : 11 ≤ msg.len) :
    blockTimestamp msg.bytes = msg.timestamp := by
  apply Decoder.nanoseconds_congr (n := 11)
  · intro j hj
    have hin : j < (msg.buf.read 0 msg.len).length := by
      rw [Memory.length_read]
      omega
    change (msg.buf.read 0 msg.len).getD j 0 = msg.buf j
    rw [List.getD_eq_getElem _ _ hin, Memory.getElem_read, Nat.zero_add]
  · decide

end MoldUdpPacket

namespace MoldUdpPacer

/-! ## The feed -/

/-- How many messages of a feed have come, and the times of the first and of the latest. -/
structure Feed where
  count : Nat
  first : Int
  latest : Int

namespace Feed

/-- A feed before its first message. -/
def start : Feed := ⟨0, 0, 0⟩

/-- The feed after a call. -/
def next (feed : Feed) : Call → Feed
  | .handleMessage msg =>
      { count := feed.count + 1
        first := if feed.count = 0 then msg.timestamp else feed.first
        latest := msg.timestamp }
  | .flush _ => feed
  | .heartbeat => feed

/-- The call brings the next message, which has a header and is not earlier than the one before, or it
asks for a flush at the time of the latest message, or for a heartbeat. -/
def Accepts (feed : Feed) : Call → Prop
  | .handleMessage msg =>
      11 ≤ msg.len ∧ msg.count.toNat = feed.count ∧ feed.latest ≤ msg.timestamp
  | .flush ts => feed.count ≠ 0 → ts = feed.latest
  | .heartbeat => True

end Feed

/-- The messages of the calls are numbered one after the other, their times do not decrease, and each
flush is at the time of the latest message. -/
def Timely : Feed → List Call → Prop
  | _, [] => True
  | feed, call :: calls => feed.Accepts call ∧ Timely (feed.next call) calls

namespace Feed

/-- The first message of a feed stays the first. -/
theorem foldl_first_of_started {feed : Feed} (h : feed.count ≠ 0) (calls : List Call) :
    (calls.foldl next feed).first = feed.first := by
  induction calls generalizing feed with
  | nil => rfl
  | cons call calls ih =>
      rw [List.foldl_cons]
      cases call with
      | handleMessage msg =>
          rw [ih (Nat.succ_ne_zero _)]
          exact if_neg h
      | flush ts => exact ih h
      | heartbeat => exact ih h

theorem foldl_first {feed : Feed} (h : feed.count = 0) {calls : List Call} {msg : UnknownMessage}
    (hmsg : msg ∈ (received calls).head?) : (calls.foldl next feed).first = msg.timestamp := by
  induction calls generalizing feed with
  | nil => cases hmsg
  | cons call calls ih =>
      rw [List.foldl_cons]
      cases call with
      | handleMessage first =>
          cases hmsg
          rw [foldl_first_of_started (Nat.succ_ne_zero _)]
          exact if_pos h
      | flush ts => exact ih h hmsg
      | heartbeat => exact ih h hmsg

theorem foldl_count_ne_zero {feed : Feed} {calls : List Call} {msg : UnknownMessage}
    (hmsg : msg ∈ (received calls).head?) : (calls.foldl next feed).count ≠ 0 := by
  have hle : ∀ (calls : List Call) (feed : Feed), feed.count ≤ (calls.foldl next feed).count := by
    intro calls
    induction calls with
    | nil => exact fun feed => Nat.le_refl _
    | cons call calls ih =>
        intro feed
        refine Nat.le_trans ?_ (ih (feed.next call))
        cases call with
        | handleMessage msg => exact Nat.le_succ _
        | flush ts => exact Nat.le_refl _
        | heartbeat => exact Nat.le_refl _
  induction calls generalizing feed with
  | nil => cases hmsg
  | cons call calls ih =>
      cases call with
      | handleMessage first =>
          have hmore := hle calls (feed.next (.handleMessage first))
          exact Nat.ne_of_gt (Nat.lt_of_lt_of_le (Nat.succ_pos _) hmore)
      | flush ts => exact ih hmsg
      | heartbeat => exact ih hmsg

/-- The latest message of a feed is the last one received. -/
theorem foldl_latest (feed : Feed) {calls : List Call} {msg : UnknownMessage}
    (hmsg : msg ∈ (received calls).getLast?) : (calls.foldl next feed).latest = msg.timestamp := by
  induction calls using List.reverseRecOn with
  | nil => cases hmsg
  | append_singleton calls call ih =>
      have hcalls : received (calls ++ [call]) = received calls ++ received [call] :=
        List.filterMap_append
      rw [List.foldl_append, List.foldl_cons, List.foldl_nil]
      rw [hcalls] at hmsg
      cases call with
      | handleMessage last =>
          have hlast : received [Call.handleMessage last] = [last] := rfl
          rw [hlast, List.getLast?_concat] at hmsg
          cases hmsg
          rfl
      | flush ts => exact ih (by simpa [received, Call.message?] using hmsg)
      | heartbeat => exact ih (by simpa [received, Call.message?] using hmsg)

end Feed

/-- An invariant of the feed and the pacer along a run. -/
theorem timely_run {I : Feed → MoldUdpPacer → Prop} {P : MoldUdpPacer → Call → Prop}
    (hstep : ∀ feed p call, I feed p → feed.Accepts call → P p call →
      I (feed.next call) (machine.step p call).2)
    {feed : Feed} {calls : List Call} (htimely : Timely feed calls) {p : MoldUdpPacer}
    (halong : machine.Along P p calls) (h : I feed p) :
    I (calls.foldl Feed.next feed) (machine.run p calls).2 := by
  induction calls generalizing feed p with
  | nil => exact h
  | cons call calls ih => exact ih htimely.2 halong.2 (hstep feed p call h htimely.1 halong.1)

section Step

variable {sessionId : List UInt8} {mtu : Int} {outside : Memory} {p : MoldUdpPacer}
  {waiting : List (List UInt8)}

/-- A message is coalesced as it is when it comes in time, and after the waiting messages were sent and
a pause when it comes late. -/
theorem Framed.handleMessage_cases (h : Framed sessionId mtu outside p waiting) (msg : UnknownMessage) :
    ∃ r waiting', Framed sessionId mtu outside r waiting' ∧
      (MoldUdpPacer.handleMessage msg).run p = (MoldUdpPacer.coalesce msg msg.timestamp).run r ∧
      (msg.timestamp - (p.started msg msg.timestamp).lastSend < p.maxDelay ∧
          r = p.started msg msg.timestamp ∧ waiting' = waiting ∨
        p.maxDelay ≤ msg.timestamp - (p.started msg msg.timestamp).lastSend ∧ waiting' = [] ∧
          r = { (if p.blockCount = 0 then p.started msg msg.timestamp
              else (p.started msg msg.timestamp).flushed msg.timestamp) with
            slept := p.slept ++ [msg.timestamp - (p.started msg msg.timestamp).lastSend] }) := by
  obtain ⟨header, hheader, hts⟩ := msg.decodeHeader_timestamp
  obtain ⟨hstarted, -⟩ := h.started msg msg.timestamp
  have hcount : (p.started msg msg.timestamp).blockCount = p.blockCount := by
    rw [MoldUdpPacer.started]
    split_ifs <;> rfl
  have hslept : (p.started msg msg.timestamp).slept = p.slept := by
    rw [MoldUdpPacer.started]
    split_ifs <;> rfl
  rw [handleMessage_run p hheader, hts]
  by_cases hlate : msg.timestamp - (p.started msg msg.timestamp).lastSend < p.maxDelay
  · rw [if_pos hlate]
    exact ⟨_, waiting, hstarted, rfl, Or.inl ⟨hlate, rfl, rfl⟩⟩
  · rw [if_neg hlate]
    -- A late message is noticed: what waits is sent, and the delay is noted as a sleep.
    obtain ⟨q, hflush, hq, -⟩ := hstarted.flush msg.timestamp
    have hrun := hflush
    rw [flush_run, hcount] at hrun
    injection hrun with _ hq'
    have hqslept : q.slept = p.slept := by
      rw [← hq', ← hslept]
      split_ifs <;> rfl
    refine ⟨_, [], hq.setSlept (q.slept ++ [msg.timestamp - (p.started msg msg.timestamp).lastSend]),
      ?_, Or.inr ⟨Int.not_lt.1 hlate, rfl, ?_⟩⟩
    · simp only [EStateM.run_bind, hflush, EStateM.run_modify]
    · rw [hqslept, hq']

/-! ## Packets whose blocks are close in time -/

/-- The packets sent are close in time, and so is the one in the buffer: the last packet was sent no
later than its first message came. -/
structure Spaced (delay latest : Int) (p : MoldUdpPacer) (waiting : List (List UInt8)) : Prop where
  maxDelay_eq : p.maxDelay = delay
  delay_pos : 0 < delay
  lastSend_le : p.lastSend ≤ latest
  firstBlockTs_le : p.firstBlockTs ≤ latest
  lastSend_le_first : waiting ≠ [] → p.lastSend ≤ p.firstBlockTs
  first : ∀ first ∈ waiting.head?, blockTimestamp first = p.firstBlockTs
  last : ∀ last ∈ waiting.getLast?, blockTimestamp last - p.firstBlockTs < delay
  close : ∀ packet ∈ p.sent, Close delay (messagesOf packet)

namespace Spaced

variable {delay latest : Int}

/-- The first message sets the time of the last packet. -/
theorem started (h : Spaced delay latest p waiting) {msg : UnknownMessage} {ts : Int}
    (hfirst : msg.count = 0 → waiting = []) (hts : latest ≤ ts) :
    Spaced delay ts (p.started msg ts) waiting := by
  -- Only the time of the last packet may change, and nothing waits when it does.
  have hlast := Int.le_trans h.firstBlockTs_le hts
  rw [MoldUdpPacer.started]
  split_ifs with hzero
  · exact ⟨h.maxDelay_eq, h.delay_pos, Int.le_refl ts, hlast, fun hsome => absurd (hfirst hzero) hsome,
      h.first, h.last, h.close⟩
  · exact ⟨h.maxDelay_eq, h.delay_pos, Int.le_trans h.lastSend_le hts, hlast, h.lastSend_le_first,
      h.first, h.last, h.close⟩

theorem setSlept (h : Spaced delay latest p waiting) (slept : List Int) :
    Spaced delay latest { p with slept := slept } waiting :=
  ⟨h.maxDelay_eq, h.delay_pos, h.lastSend_le, h.firstBlockTs_le, h.lastSend_le_first, h.first, h.last,
    h.close⟩

/-- The waiting messages are close in time. -/
theorem close_waiting (h : Spaced delay latest p waiting) : Close delay waiting := by
  intro first hfirst last hlast
  rw [h.first first hfirst]
  exact h.last last hlast

/-- Sending the packet, not later than the latest message. -/
theorem flushed (h : Spaced delay latest p waiting) (hframed : Framed sessionId mtu outside p waiting)
    {ts : Int} (hts : ts ≤ latest) : Spaced delay latest (p.flushed ts) [] := by
  constructor
  case maxDelay_eq => exact h.maxDelay_eq
  case delay_pos => exact h.delay_pos
  case lastSend_le => exact hts
  case firstBlockTs_le => exact h.firstBlockTs_le
  case lastSend_le_first => exact fun hne => absurd rfl hne
  case first => simp
  case last => simp
  case close =>
    intro packet hpacket
    rcases List.mem_append.1 hpacket with hpacket | hpacket
    · exact h.close packet hpacket
    · rw [List.mem_singleton.1 hpacket, hframed.read_headed,
        messagesOf_encodePacket _ hframed.length_session hframed.fits]
      exact h.close_waiting

/-- A message that comes in soon after the last packet. -/
theorem appended (h : Spaced delay latest p waiting) (hframed : Framed sessionId mtu outside p waiting)
    {msg : UnknownMessage} (hts : blockTimestamp msg.bytes = latest)
    (hsoon : waiting ≠ [] → latest - p.lastSend < delay) :
    Spaced delay latest (p.appended msg latest) (waiting ++ [msg.bytes]) := by
  have hle := h.lastSend_le
  have hpos := h.delay_pos
  by_cases hnil : waiting = []
  · -- The first message of a packet gives it its time.
    have hempty := hframed.blockCount_eq_zero_iff.2 hnil
    have hfirst : (p.appended msg latest).firstBlockTs = latest := if_pos hempty
    subst hnil
    constructor
    case maxDelay_eq => exact h.maxDelay_eq
    case delay_pos => exact h.delay_pos
    case lastSend_le => exact hle
    case firstBlockTs_le => exact Int.le_of_eq hfirst
    case lastSend_le_first =>
      intro _
      rw [hfirst]
      exact hle
    case first => simp [hfirst, hts]
    case last => simp [hfirst, hts, hpos]
    case close => exact h.close
  · -- The packet keeps the time of its first message, and the others are close to that.
    have hsome : p.blockCount ≠ 0 := fun hempty => hnil (hframed.blockCount_eq_zero_iff.1 hempty)
    have hfirst : (p.appended msg latest).firstBlockTs = p.firstBlockTs := if_neg hsome
    have horder := h.lastSend_le_first hnil
    have hsoon := hsoon hnil
    constructor
    case maxDelay_eq => exact h.maxDelay_eq
    case delay_pos => exact h.delay_pos
    case lastSend_le => exact hle
    case firstBlockTs_le =>
      rw [hfirst]
      exact h.firstBlockTs_le
    case lastSend_le_first =>
      intro _
      rw [hfirst]
      exact horder
    case first =>
      rw [hfirst, List.head?_append_of_ne_nil waiting hnil]
      exact h.first
    case last =>
      rw [hfirst, List.getLast?_concat]
      rintro _ ⟨rfl⟩
      rw [hts]
      omega
    case close => exact h.close

/-- Coalescing a message that comes in soon after the last packet. -/
theorem coalesce (h : Spaced delay latest p waiting) (hframed : Framed sessionId mtu outside p waiting)
    {msg : UnknownMessage} (hts : blockTimestamp msg.bytes = latest)
    (hsoon : waiting ≠ [] → latest - p.lastSend < delay) :
    ∃ waiting',
      Framed sessionId mtu outside (finalState ((MoldUdpPacer.coalesce msg latest).run p)) waiting' ∧
      Spaced delay latest (finalState ((MoldUdpPacer.coalesce msg latest).run p)) waiting' := by
  rcases hframed.coalesce_cases msg latest with
    ⟨r, waiting', hcases, hrun, hr, happended, -⟩ | ⟨e, hrun⟩
  · rw [hrun]
    refine ⟨_, happended, ?_⟩
    rcases hcases with ⟨rfl, rfl⟩ | ⟨rfl, -, rfl⟩
    · exact h.appended hr hts hsoon
    · exact (h.flushed hframed (Int.le_refl latest)).appended hr hts fun hne => absurd rfl hne
  · rw [hrun]
    exact ⟨waiting, hframed, h⟩

/-- Handling a message that is not earlier than the one before. -/
theorem handleMessage (h : Spaced delay latest p waiting)
    (hframed : Framed sessionId mtu outside p waiting) {msg : UnknownMessage} (hlen : 11 ≤ msg.len)
    (hfirst : msg.count = 0 → waiting = []) (hle : latest ≤ msg.timestamp) :
    ∃ waiting',
      Framed sessionId mtu outside (finalState ((MoldUdpPacer.handleMessage msg).run p)) waiting' ∧
      Spaced delay msg.timestamp (finalState ((MoldUdpPacer.handleMessage msg).run p)) waiting' := by
  have hstarted := h.started hfirst hle
  obtain ⟨hfstarted, -⟩ := hframed.started msg msg.timestamp
  obtain ⟨r, waiting', hr, hrun, hcases⟩ := hframed.handleMessage_cases msg
  rw [hrun]
  rcases hcases with ⟨hsoon, rfl, rfl⟩ | ⟨-, rfl, rfl⟩
  · rw [h.maxDelay_eq] at hsoon
    exact hstarted.coalesce hr (blockTimestamp_bytes hlen) fun _ => hsoon
  · -- nothing waits after a late message was noticed
    have hspaced : Spaced delay msg.timestamp
        (if p.blockCount = 0 then p.started msg msg.timestamp
          else (p.started msg msg.timestamp).flushed msg.timestamp) [] := by
      split_ifs with hempty
      · rwa [hframed.blockCount_eq_zero_iff.1 hempty] at hstarted
      · exact hstarted.flushed hfstarted (Int.le_refl _)
    exact (hspaced.setSlept _).coalesce hr (blockTimestamp_bytes hlen) fun hne => absurd rfl hne

/-- A call of a timely feed. -/
theorem step {feed : Feed} (h : Spaced delay feed.latest p waiting)
    (hframed : Framed sessionId mtu outside p waiting) (hidle : feed.count = 0 → waiting = [])
    {call : Call} (haccepts : feed.Accepts call) :
    ∃ waiting', Framed sessionId mtu outside (machine.step p call).2 waiting' ∧
      Spaced delay (feed.next call).latest (machine.step p call).2 waiting' ∧
      ((feed.next call).count = 0 → waiting' = []) := by
  rw [machine, ofAction_step_state]
  cases call with
  | handleMessage msg =>
      obtain ⟨hlen, hcount, hle⟩ := haccepts
      -- The first message of the feed finds nothing waiting.
      have hfirst : msg.count = 0 → waiting = [] := by
        intro hzero
        apply hidle
        rw [← hcount, hzero]
        rfl
      obtain ⟨waiting', hframed', h'⟩ := h.handleMessage hframed hlen hfirst hle
      exact ⟨waiting', hframed', h', fun hzero => absurd hzero (Nat.succ_ne_zero _)⟩
  | flush ts =>
      rw [apply, flush_run]
      by_cases hempty : p.blockCount = 0
      · rw [if_pos hempty]
        exact ⟨waiting, hframed, h, hidle⟩
      · rw [if_neg hempty]
        -- Something waits, so the feed has begun and the call comes at its latest time.
        have hts : ts = feed.latest := haccepts fun hzero =>
          hempty (hframed.blockCount_eq_zero_iff.2 (hidle hzero))
        exact ⟨[], (hframed.flushed ts).1, h.flushed hframed (Int.le_of_eq hts), fun _ => rfl⟩
  | heartbeat =>
      rw [apply, heartbeat_run]
      exact ⟨[], (hframed.flushed _).1, h.flushed hframed h.firstBlockTs_le, fun _ => rfl⟩

end Spaced

end Step

theorem spaced_make {cfg : MoldUdpPacerConfig} (hcfg : cfg.validate = .ok ())
    (sessionId : ShortStringField sessionIdSize) :
    Spaced (cfg.maximumDelayMicroseconds * 1000) Feed.start.latest (make cfg sessionId) [] := by
  obtain ⟨-, hdelay, -⟩ := cfg.validate_ok_iff.1 hcfg
  constructor
  case maxDelay_eq => rfl
  case delay_pos => omega
  case lastSend_le => exact Int.le_refl 0
  case firstBlockTs_le => exact Int.le_refl 0
  case lastSend_le_first => exact fun hne => absurd rfl hne
  case first => simp
  case last => simp
  case close => simp [make]

/-- In a timely feed, the blocks of a packet come within the maximum delay. -/
theorem blocks_close {cfg : MoldUdpPacerConfig} (hcfg : cfg.validate = .ok ())
    (sessionId : ShortStringField sessionIdSize) {calls : List Call}
    (htimely : Timely .start calls) :
    ∀ packet ∈ (machine.run (make cfg sessionId) calls).2.sent,
      Close (cfg.maximumDelayMicroseconds * 1000) (messagesOf packet) := by
  have hframed := framed_make hcfg sessionId fun _ => 0
  rw [beside_zeros] at hframed
  have hkeep := timely_run (P := fun _ _ => True)
    (I := fun feed p => ∃ waiting,
      Framed (sessionId.buffer.read 0 sessionIdSize) cfg.maximumTransmissionUnit (fun _ => 0) p
        waiting ∧
      Spaced (cfg.maximumDelayMicroseconds * 1000) feed.latest p waiting ∧
      (feed.count = 0 → waiting = []))
    (fun feed p call ⟨_, hp, hspaced, hidle⟩ haccepts _ => hspaced.step hp hidle haccepts)
    htimely (along_of_forall machine (fun _ _ _ => trivial) _)
    ⟨[], hframed, spaced_make hcfg sessionId, fun _ => rfl⟩
  obtain ⟨_, -, hspaced, -⟩ := hkeep
  exact hspaced.close

/-- A message of 11 bytes with a timestamp. -/
def timedMessage (i t : Nat) : UnknownMessage :=
  ⟨UInt32.ofNat i, 0, 11, Memory.write (fun _ => 0) 7 (bytes32 (UInt32.ofNat t))⟩

/-- Two messages at 0 and 50 microseconds, and a heartbeat. -/
theorem blocks_close_two :
    let calls : List Call :=
      [.handleMessage (timedMessage 0 0), .handleMessage (timedMessage 1 50000), .heartbeat]
    Timely .start calls ∧
      ∀ packet ∈ (machine.run (make .defaults .empty) calls).2.sent,
        Close 100000 (messagesOf packet) := by
  intro calls
  have htimely : Timely .start calls := by
    refine ⟨?_, ?_, trivial, trivial⟩
    · exact ⟨Nat.le_refl 11, rfl, by decide +kernel⟩
    · exact ⟨Nat.le_refl 11, rfl, by decide +kernel⟩
  exact ⟨htimely, blocks_close MoldUdpPacerConfig.validate_defaults .empty htimely⟩

/-! ## The time spent asleep -/

/-- A call that keeps the time of the last packet up to date: a late message finds a message in the
buffer, and a heartbeat that finds none does not set that time back. -/
def KeepsPace (p : MoldUdpPacer) : Call → Prop
  | .handleMessage msg =>
      p.maxDelay ≤ msg.timestamp - (p.started msg msg.timestamp).lastSend → p.blockCount ≠ 0
  | .flush _ => True
  | .heartbeat => p.blockCount = 0 → p.lastSend ≤ p.firstBlockTs

/-- Nothing waits before the first message, and the pacer has not slept. -/
structure Idle (latest : Int) (p : MoldUdpPacer) : Prop where
  firstBlockTs_le : p.firstBlockTs ≤ latest
  empty : p.blockCount = 0
  slept : p.slept = []

/-- The pacer has slept no longer than the time from the first message to the last packet. -/
structure OnPace (first latest : Int) (p : MoldUdpPacer) : Prop where
  lastSend_le : p.lastSend ≤ latest
  firstBlockTs_le : p.firstBlockTs ≤ latest
  lastSend_le_first : p.blockCount ≠ 0 → p.lastSend ≤ p.firstBlockTs
  slept_le : p.slept.sum ≤ p.lastSend - first

namespace OnPace

variable {sessionId : List UInt8} {mtu : Int} {outside : Memory} {p : MoldUdpPacer}
  {waiting : List (List UInt8)} {first latest : Int}

/-- Sending the packet, between the time of the last one and the latest message. -/
theorem flushed (h : OnPace first latest p) {ts : Int} (hlast : p.lastSend ≤ ts) (hts : ts ≤ latest) :
    OnPace first latest (p.flushed ts) where
  lastSend_le := hts
  firstBlockTs_le := h.firstBlockTs_le
  lastSend_le_first := fun hne => absurd rfl hne
  slept_le := by
    have hslept := h.slept_le
    change p.slept.sum ≤ ts - first
    omega

theorem appended (h : OnPace first latest p) (msg : UnknownMessage) :
    OnPace first latest (p.appended msg latest) where
  lastSend_le := h.lastSend_le
  firstBlockTs_le := by
    change (if p.blockCount = 0 then latest else p.firstBlockTs) ≤ latest
    split_ifs
    · exact Int.le_refl latest
    · exact h.firstBlockTs_le
  lastSend_le_first := by
    intro _
    change p.lastSend ≤ if p.blockCount = 0 then latest else p.firstBlockTs
    split_ifs with hempty
    · exact h.lastSend_le
    · exact h.lastSend_le_first hempty
  slept_le := h.slept_le

/-- Coalescing the latest message. -/
theorem coalesce (h : OnPace first latest p) (hframed : Framed sessionId mtu outside p waiting)
    (msg : UnknownMessage) :
    ∃ waiting',
      Framed sessionId mtu outside (finalState ((MoldUdpPacer.coalesce msg latest).run p)) waiting' ∧
      OnPace first latest (finalState ((MoldUdpPacer.coalesce msg latest).run p)) := by
  rcases hframed.coalesce_cases msg latest with
    ⟨r, waiting', hcases, hrun, -, happended, -⟩ | ⟨e, hrun⟩
  · rw [hrun]
    refine ⟨_, happended, ?_⟩
    rcases hcases with ⟨rfl, -⟩ | ⟨rfl, -⟩
    · exact h.appended msg
    · exact (h.flushed h.lastSend_le (Int.le_refl latest)).appended msg
  · rw [hrun]
    exact ⟨waiting, hframed, h⟩

/-- Handling a message, once it was looked whether it is the first one. -/
theorem handleMessage {msg : UnknownMessage}
    (h : OnPace first msg.timestamp (p.started msg msg.timestamp))
    (hframed : Framed sessionId mtu outside p waiting) (hkeeps : KeepsPace p (.handleMessage msg)) :
    ∃ waiting',
      Framed sessionId mtu outside (finalState ((MoldUdpPacer.handleMessage msg).run p)) waiting' ∧
      OnPace first msg.timestamp (finalState ((MoldUdpPacer.handleMessage msg).run p)) := by
  obtain ⟨r, waiting', hr, hrun, hcases⟩ := hframed.handleMessage_cases msg
  rw [hrun]
  rcases hcases with ⟨-, rfl, -⟩ | ⟨hlate, -, rfl⟩
  · exact h.coalesce hr msg
  · -- the waiting messages are sent now, and the sleep ends when this message came
    apply OnPace.coalesce _ hr msg
    rw [if_neg (hkeeps hlate)]
    have hslept := h.slept_le
    have hsame : (p.started msg msg.timestamp).slept = p.slept := by
      rw [MoldUdpPacer.started]
      split_ifs <;> rfl
    refine ⟨Int.le_refl _, h.firstBlockTs_le, fun hne => absurd rfl hne, ?_⟩
    rw [hsame] at hslept
    change (p.slept ++ [msg.timestamp - (p.started msg msg.timestamp).lastSend]).sum ≤
      msg.timestamp - first
    rw [List.sum_append, List.sum_singleton]
    omega

end OnPace

/-- The state of a pacer in a feed: idle before the first message, and on pace after it. -/
def InPace (feed : Feed) (p : MoldUdpPacer) : Prop :=
  feed.count = 0 ∧ Idle feed.latest p ∨ feed.count ≠ 0 ∧ OnPace feed.first feed.latest p

namespace InPace

variable {sessionId : List UInt8} {mtu : Int} {outside : Memory} {p : MoldUdpPacer}
  {waiting : List (List UInt8)} {feed : Feed}

/-- The first message starts the pace, and a later one keeps it. -/
theorem started (h : InPace feed p) {msg : UnknownMessage}
    (haccepts : feed.Accepts (.handleMessage msg)) :
    OnPace (feed.next (.handleMessage msg)).first msg.timestamp (p.started msg msg.timestamp) := by
  obtain ⟨-, hcount, hle⟩ := haccepts
  rcases h with ⟨hzero, hidle⟩ | ⟨hsome, hpace⟩
  · have hfirst : msg.count = 0 := UInt32.toNat_inj.1 (hcount.trans hzero)
    rw [MoldUdpPacer.started, if_pos hfirst]
    refine ⟨Int.le_refl _, Int.le_trans hidle.firstBlockTs_le hle,
      fun hne => absurd hidle.empty hne, ?_⟩
    change p.slept.sum ≤ msg.timestamp - if feed.count = 0 then msg.timestamp else feed.first
    rw [if_pos hzero, hidle.slept, Int.sub_self]
    exact Int.le_refl 0
  · have hlater : msg.count ≠ 0 := by
      intro hfirst
      rw [hfirst] at hcount
      exact hsome hcount.symm
    rw [MoldUdpPacer.started, if_neg hlater]
    refine ⟨Int.le_trans hpace.lastSend_le hle, Int.le_trans hpace.firstBlockTs_le hle,
      hpace.lastSend_le_first, ?_⟩
    change p.slept.sum ≤ p.lastSend - if feed.count = 0 then msg.timestamp else feed.first
    rw [if_neg hsome]
    exact hpace.slept_le

/-- A call of a timely feed that keeps the pace. -/
theorem step (h : InPace feed p) (hframed : Framed sessionId mtu outside p waiting) {call : Call}
    (haccepts : feed.Accepts call) (hkeeps : KeepsPace p call) :
    ∃ waiting', Framed sessionId mtu outside (machine.step p call).2 waiting' ∧
      InPace (feed.next call) (machine.step p call).2 := by
  rw [machine, ofAction_step_state]
  cases call with
  | handleMessage msg =>
      obtain ⟨waiting', hframed', h'⟩ := (h.started haccepts).handleMessage hframed hkeeps
      exact ⟨waiting', hframed', Or.inr ⟨Nat.succ_ne_zero _, h'⟩⟩
  | flush ts =>
      rw [apply, flush_run]
      by_cases hempty : p.blockCount = 0
      · rw [if_pos hempty]
        exact ⟨waiting, hframed, h⟩
      · rw [if_neg hempty]
        refine ⟨[], (hframed.flushed ts).1, ?_⟩
        rcases h with ⟨-, hidle⟩ | ⟨hsome, hpace⟩
        · exact absurd hidle.empty hempty
        · have hts : ts = feed.latest := haccepts hsome
          have hlast : p.lastSend ≤ ts := by
            rw [hts]
            exact hpace.lastSend_le
          exact Or.inr ⟨hsome, hpace.flushed hlast (Int.le_of_eq hts)⟩
  | heartbeat =>
      rw [apply, heartbeat_run]
      refine ⟨[], (hframed.flushed _).1, ?_⟩
      rcases h with ⟨hzero, hidle⟩ | ⟨hsome, hpace⟩
      · exact Or.inl ⟨hzero, hidle.firstBlockTs_le, rfl, hidle.slept⟩
      · have hlast : p.lastSend ≤ p.firstBlockTs := by
          by_cases hempty : p.blockCount = 0
          · exact hkeeps hempty
          · exact hpace.lastSend_le_first hempty
        exact Or.inr ⟨hsome, hpace.flushed hlast hpace.firstBlockTs_le⟩

end InPace

/-- In a timely feed whose calls keep the pace, the pacer sleeps no longer than the feed took. -/
theorem slept_le {cfg : MoldUdpPacerConfig} (hcfg : cfg.validate = .ok ())
    (sessionId : ShortStringField sessionIdSize) {calls : List Call}
    (htimely : Timely .start calls) (hkeeps : machine.Along KeepsPace (make cfg sessionId) calls) :
    ∀ first ∈ (received calls).head?, ∀ last ∈ (received calls).getLast?,
      (machine.run (make cfg sessionId) calls).2.slept.sum ≤ last.timestamp - first.timestamp := by
  have hframed := framed_make hcfg sessionId fun _ => 0
  rw [beside_zeros] at hframed
  have hkeep := timely_run
    (I := fun feed p => ∃ waiting,
      Framed (sessionId.buffer.read 0 sessionIdSize) cfg.maximumTransmissionUnit (fun _ => 0) p
        waiting ∧ InPace feed p)
    (fun feed p call ⟨_, hp, hpace⟩ haccepts hcall => hpace.step hp haccepts hcall)
    htimely hkeeps ⟨[], hframed, Or.inl ⟨rfl, Int.le_refl 0, rfl, rfl⟩⟩
  obtain ⟨_, -, hpace⟩ := hkeep
  intro first hfirst last hlast
  rcases hpace with ⟨hzero, -⟩ | ⟨-, hpace⟩
  · exact absurd hzero (Feed.foldl_count_ne_zero hfirst)
  · have hstart : Feed.start.count = 0 := rfl
    rw [← Feed.foldl_first hstart hfirst, ← Feed.foldl_latest .start hlast]
    have hslept := hpace.slept_le
    have hlast := hpace.lastSend_le
    omega

/-- A message, and a late one that finds it in the buffer. -/
theorem slept_le_late :
    let calls : List Call := [.handleMessage (timedMessage 0 0), .handleMessage (timedMessage 1 200000)]
    (machine.run (make .defaults .empty) calls).2.slept.sum ≤ 200000 - 0 := by
  intro calls
  have htimely : Timely .start calls := by
    refine ⟨?_, ?_, trivial⟩
    · exact ⟨Nat.le_refl 11, rfl, by decide +kernel⟩
    · exact ⟨Nat.le_refl 11, rfl, by decide +kernel⟩
  have hkeeps : machine.Along KeepsPace (make .defaults .empty) calls := by
    refine ⟨fun hlate => ?_, fun _ => by decide +kernel, trivial⟩
    revert hlate
    decide +kernel
  exact slept_le MoldUdpPacerConfig.validate_defaults .empty htimely hkeeps (timedMessage 0 0) rfl
    (timedMessage 1 200000) rfl

/-- A message and a heartbeat, a late message that finds an empty buffer, and one more 10 microseconds
after it: the pacer sleeps twice for the time before the late message. -/
theorem slept_twice :
    let calls : List Call := [.handleMessage (timedMessage 0 0), .heartbeat,
      .handleMessage (timedMessage 1 200000), .handleMessage (timedMessage 2 210000)]
    MoldUdpPacerConfig.defaults.validate = .ok () ∧ Timely .start calls ∧
      ¬ ∀ first ∈ (received calls).head?, ∀ last ∈ (received calls).getLast?,
        (machine.run (make .defaults .empty) calls).2.slept.sum ≤
          last.timestamp - first.timestamp := by
  refine ⟨MoldUdpPacerConfig.validate_defaults, ⟨?_, trivial, ?_, ?_, trivial⟩, ?_⟩
  · exact ⟨Nat.le_refl 11, rfl, by decide +kernel⟩
  · exact ⟨Nat.le_refl 11, rfl, by decide +kernel⟩
  · exact ⟨Nat.le_refl 11, rfl, by decide +kernel⟩
  · intro hslept
    have hle := hslept (timedMessage 0 0) rfl (timedMessage 2 210000) rfl
    revert hle
    decide +kernel

end MoldUdpPacer

end JayBeams.Itch5
