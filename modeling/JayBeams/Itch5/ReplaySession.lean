import JayBeams.Itch5.MoldUdpPacer
import JayBeams.Itch5.ProcessIostream
import JayBeams.Itch5.ReplayerControl
import Mathlib.Algebra.GroupWithZero.Nat

/-!
# The replay session

A session of the replayer reads a file with `process_iostream_mlist`, to which no message type is
known, and gives each message to its pacer. The session ends with the file and does not flush its
pacer. Handling a message always leaves that message in the buffer of the pacer, so the last one is
never sent (`start_sends_iff`).

`Counted` is the invariant: the blocks announced by the packets sent and those in the buffer are not
more than the messages handled.
-/

set_option autoImplicit false

namespace JayBeams.Itch5

open Bytes Machines Machines.Machine MoldUdpProtocol MoldUdpPacket

/-! ## Sessions -/

/-- `session`, with what the replayer control sees of it; its sockets are the sink of the pacer -/
structure ReplaySession extends Session where
  pacer : MoldUdpPacer

namespace ReplaySession

/-- The constructor -/
def make (cfg : MoldUdpPacerConfig) : ReplaySession := ⟨⟨false, 0, 0⟩, .make cfg .empty⟩

/-- `handle_unknown`; the pacer does not use the time at which a message was received -/
def handleUnknown (msg : UnknownMessage) : EStateM Failure ReplaySession Unit := do
  let s ← get
  if s.stop then throw (.runtimeError "stopping replay thread")
  modify fun s =>
    { s with lastMessageCount := msg.count, lastMessageOffset := UInt64.ofNat msg.offset }
  onPart pacer (fun p s => { s with pacer := p }) (MoldUdpPacer.handleMessage msg)

/-- A session as a message handler: it has no `handle_message`, which an empty list of types does not
ask for. -/
def handler : MessageHandler ReplaySession Unit where
  now := return ()
  handle := fun call =>
    match call with
    | .handleUnknown _ msg => handleUnknown msg
    | .handleMessage _ _ _ _ => return ()

/-- `start`, on the contents of the input file -/
def start (leftover : IStream → Memory) (input : List UInt8) : EStateM Failure ReplaySession Unit :=
  processIostreamMlist [] handler leftover 0 0 (.ofBytes input)

end ReplaySession

/-! ## Blocks sent and waiting -/

namespace MoldUdpPacer

/-- The number of blocks that packets announce. -/
def blocksAnnounced (packets : List (List UInt8)) : Nat :=
  (packets.map fun packet => (MoldUdpPacket.blockCount packet).toNat).sum

/-- The blocks sent and waiting are no more than the messages handled. -/
structure Counted (p : MoldUdpPacer) (handled : Nat) : Prop where
  total : blocksAnnounced p.sent + p.blockCount.toNat ≤ handled
  size : headerSize ≤ p.packetSize

variable {p : MoldUdpPacer} {handled : Nat}

theorem counted_make (cfg : MoldUdpPacerConfig) (sessionId : ShortStringField sessionIdSize) :
    Counted (make cfg sessionId) 0 :=
  ⟨Nat.le_refl 0, Nat.le_refl headerSize⟩

/-- The header of the packet in the buffer announces the blocks that wait. -/
theorem blockCount_headed (h : headerSize ≤ p.packetSize) :
    MoldUdpPacket.blockCount (p.headed.read 0 p.packetSize) = p.blockCount := by
  have hheader : (Memory.ofList (p.headed.read 0 p.packetSize)).read 0 headerSize =
      p.headed.read 0 headerSize := by
    have hall := Memory.read_ofList (p.headed.read 0 p.packetSize)
    rw [Memory.length_read] at hall
    rw [← Memory.take_read _ 0 h, hall, Memory.take_read _ 0 h]
  have hcount := congrArg (List.drop blockCountOffset) hheader
  rw [Memory.drop_read, Memory.drop_read, Nat.zero_add] at hcount
  apply load16_of_read
  exact hcount.trans (Memory.read_write_self _ _ _)

theorem Counted.flushed (h : Counted p handled) (ts : Int) : Counted (p.flushed ts) handled where
  total := by
    have hsent : blocksAnnounced (p.flushed ts).sent =
        blocksAnnounced p.sent + p.blockCount.toNat := by
      simp [blocksAnnounced, MoldUdpPacer.flushed, blockCount_headed h.size]
    rw [hsent]
    exact h.total
  size := Nat.le_refl headerSize

/-- The time of the last packet is not counted. -/
theorem Counted.started (h : Counted p handled) (msg : UnknownMessage) (ts : Int) :
    Counted (p.started msg ts) handled := by
  rw [MoldUdpPacer.started]
  split_ifs
  · exact ⟨h.total, h.size⟩
  · exact h

theorem Counted.setSlept (h : Counted p handled) (slept : List Int) :
    Counted { p with slept := slept } handled :=
  ⟨h.total, h.size⟩

/-- What handling a message leaves: when it returns, one message more was handled and some message
waits. -/
def Handled (handled : Nat) : EStateM.Result Failure MoldUdpPacer Unit → Prop
  | .ok _ p => Counted p (handled + 1) ∧ p.blockCount ≠ 0
  | .error _ p => Counted p handled

theorem appendBlock_counted {msg : UnknownMessage} (h : Counted p handled) (hfew : p.blockCount ≠ 65535)
    (ts : Int) : Handled handled ((appendBlock msg ts).run p) := by
  have hlt : p.blockCount.toNat < 65535 := by
    have hne : p.blockCount.toNat ≠ 65535 := fun heq => hfew (UInt16.toNat_inj.1 heq)
    have hmax := p.blockCount.toNat_lt
    omega
  have hnext : (p.blockCount + 1).toNat = p.blockCount.toNat + 1 := by
    have hone : (1 : UInt16).toNat = 1 := rfl
    rw [UInt16.toNat_add, hone]
    exact Nat.mod_eq_of_lt (by omega)
  have hcounted : Counted (p.appended msg ts) (handled + 1) := by
    refine ⟨?_, Nat.le_trans h.size (Nat.le_add_right _ _)⟩
    have htotal := h.total
    change blocksAnnounced p.sent + (p.blockCount + 1).toNat ≤ handled + 1
    omega
  have hsome : (p.appended msg ts).blockCount ≠ 0 := by
    intro hzero
    have hzero : (p.blockCount + 1).toNat = 0 := congrArg UInt16.toNat hzero
    omega
  by_cases hroom : p.packetSize + 2 ≤ rawbufsize
  · rw [appendBlock_run msg ts hroom]
    exact ⟨hcounted, hsome⟩
  · have hfull : rawbufsize - p.packetSize < 0 + 2 := by omega
    have hraise : ∀ (m : Memory) (x : UInt16),
        Encoder.uint16 true (rawbufsize - p.packetSize) m p.packetSize 0 x =
          .error (.invalidOffset "encode std::uint16_t" (rawbufsize - p.packetSize) 0 2) :=
      fun m x => Encoder.uint16_error m p.packetSize hfull x
    simp only [appendBlock, EStateM.run_bind, EStateM.run_get, EStateM.run_modify]
    split_ifs
    · simp only [hraise]
      exact ⟨h.total, h.size⟩
    · simp only [hraise]
      exact h

theorem coalesce_counted {msg : UnknownMessage} (h : Counted p handled) (ts : Int) :
    Handled handled ((coalesce msg ts).run p) := by
  by_cases haccepted : msg.len < 65536 ∧ msg.len + 2 < toSizeT (p.mtu - headerSize)
  · rw [coalesce_appends p ts haccepted.1 haccepted.2, withRoom]
    split_ifs with hfull hempty
    · exact appendBlock_counted h (by rw [hempty]; decide) ts
    · exact appendBlock_counted (h.flushed ts) (by simp [MoldUdpPacer.flushed]) ts
    · rw [packetFull, Bool.or_eq_true, not_or, beq_iff_eq] at hfull
      exact appendBlock_counted h hfull.2 ts
  · obtain ⟨e, hrun⟩ := coalesce_refused ts fun hlen hmtu => haccepted ⟨hlen, hmtu⟩
    rw [hrun]
    exact h

theorem handleMessage_counted (h : Counted p handled) (msg : UnknownMessage) :
    Handled handled ((handleMessage msg).run p) := by
  obtain ⟨header, hheader⟩ := msg.decodeHeader_unchecked
  have hq := h.started msg header.timestamp
  rw [handleMessage_run p hheader]
  split_ifs
  · exact coalesce_counted hq header.timestamp
  · simp only [EStateM.run_bind, flush_run, EStateM.run_modify]
    apply coalesce_counted
    split_ifs
    · exact hq.setSlept _
    · exact (hq.flushed header.timestamp).setSlept _

end MoldUdpPacer

/-! ## Replays -/

namespace ReplaySession

variable {s : ReplaySession} {handled : Nat} {leftover : IStream → Memory}

/-- What delivering a message leaves: a session that counts one message more, or an exception. -/
def Delivered (handled : Nat) : EStateM.Result Failure ReplaySession Unit → Prop
  | .ok _ s => s.stop = false ∧ s.pacer.Counted (handled + 1) ∧ s.pacer.blockCount ≠ 0
  | .error _ s => s.pacer.Counted handled

theorem pacer_counted (hstop : s.stop = false) (h : s.pacer.Counted handled)
    (msg : UnknownMessage) :
    Delivered handled ((onPart pacer (fun p s => { s with pacer := p })
      (MoldUdpPacer.handleMessage msg)).run s) := by
  have hpacer := MoldUdpPacer.handleMessage_counted h msg
  cases hrun : (MoldUdpPacer.handleMessage msg).run s.pacer with
  | ok u p =>
      rw [hrun] at hpacer
      rw [onPart_run_ok _ _ hrun]
      exact ⟨hstop, hpacer.1, hpacer.2⟩
  | error e p =>
      rw [hrun] at hpacer
      rw [onPart_run_error _ _ hrun]
      exact hpacer

theorem deliver_counted (hstop : s.stop = false) (h : s.pacer.Counted handled)
    (msgcnt msgoffset : UInt64) (msgbuf : Memory) (msglen : Nat) :
    Delivered handled ((handler.deliver [] msgcnt msgoffset msgbuf msglen).run s) := by
  have hdeliver : (handler.deliver [] msgcnt msgoffset msgbuf msglen).run s =
      (handleUnknown ⟨msgcnt.toUInt32, msgoffset.toNat, msglen, msgbuf⟩).run s := rfl
  have hrunning : ¬ s.stop = true := by
    rw [hstop]
    exact Bool.false_ne_true
  rw [hdeliver]
  simp only [handleUnknown, EStateM.run_bind, EStateM.run_get, if_neg hrunning,
    EStateM.run_modify]
  apply pacer_counted
  · exact hstop
  · exact h

/-- The packets that a replay sends announce fewer blocks than there are messages. -/
theorem replay_counted (leftover : IStream → Memory) {messages : List (List UInt8)}
    (hstop : s.stop = false) (h : s.pacer.Counted handled)
    (hsize : ∀ message ∈ messages, message.length < 65536) (hmessages : messages ≠ [])
    (msgcnt msgoffset : UInt64) :
    MoldUdpPacer.blocksAnnounced (finalState ((processIostreamMlist [] handler leftover msgcnt
      msgoffset (.ofBytes (encodeBlocks messages))).run s)).pacer.sent < handled + messages.length := by
  induction messages generalizing s handled msgcnt msgoffset with
  | nil => exact absurd rfl hmessages
  | cons message messages ih =>
      rw [List.forall_mem_cons] at hsize
      rw [processIostreamMlist_message hsize.1, List.length_cons]
      have hdelivered := deliver_counted hstop h msgcnt (msgoffset + 2)
        ((leftover (.ofBytes (message ++ encodeBlocks messages))).write 0 message) message.length
      have hnow : handler.now = (return () : EStateM Failure ReplaySession Unit) := rfl
      simp only [hnow, pure_bind, EStateM.run_bind]
      cases hrun : (handler.deliver [] msgcnt (msgoffset + 2)
          ((leftover (.ofBytes (message ++ encodeBlocks messages))).write 0 message)
          message.length).run s with
      | error e s' =>
          rw [hrun] at hdelivered
          have htotal := MoldUdpPacer.Counted.total hdelivered
          change MoldUdpPacer.blocksAnnounced s'.pacer.sent < _
          omega
      | ok u s' =>
          rw [hrun] at hdelivered
          obtain ⟨hstop', hcounted, hwaits⟩ := hdelivered
          by_cases hlast : messages = []
          · -- the last message waits
            subst hlast
            have hone := MoldUdpPacer.Counted.total hcounted
            have hpos : s'.pacer.blockCount.toNat ≠ 0 := fun hzero =>
              hwaits (UInt16.toNat_inj.1 hzero)
            have hend : processIostreamMlist [] handler leftover (msgcnt + 1)
                (msgoffset + 2 + UInt64.ofNat message.length) (.ofBytes (encodeBlocks [])) =
                (return () : EStateM Failure ReplaySession Unit) :=
              processIostreamMlist_short Nat.two_pos
            simp only [hend]
            change MoldUdpPacer.blocksAnnounced s'.pacer.sent < _
            rw [List.length_nil]
            omega
          · have hnext := ih hstop' hcounted hsize.2 hlast (msgcnt + 1)
              (msgoffset + 2 + UInt64.ofNat message.length)
            rw [Nat.add_comm messages.length, ← Nat.add_assoc]
            exact hnext

/-- Datagrams that carry messages: each of them is a packet with some of the messages, and the
messages of all packets are those. -/
def Carry (datagrams messages : List (List UInt8)) : Prop :=
  ∃ batches : List (List (List UInt8)),
    List.Forall₂ (fun datagram batch =>
      blocks? (MoldUdpPacket.blockCount datagram).toNat (datagram.drop headerSize) = some batch)
      datagrams batches ∧
    batches.flatten = messages

theorem Carry.length_eq {datagrams messages : List (List UInt8)} (h : Carry datagrams messages) :
    MoldUdpPacer.blocksAnnounced datagrams = messages.length := by
  obtain ⟨batches, hcarry, rfl⟩ := h
  induction hcarry with
  | nil => rfl
  | cons hbatch hrest ih =>
      rw [List.flatten_cons, List.length_append, ← ih, length_of_blocks? hbatch]
      rfl

/-- A replay sends every message of its input, each in one datagram and in order, exactly when its
input has no messages. -/
theorem start_sends_iff (cfg : MoldUdpPacerConfig) (leftover : IStream → Memory)
    {messages : List (List UInt8)} (hsize : ∀ message ∈ messages, message.length < 65536) :
    Carry (finalState ((start leftover (encodeBlocks messages)).run (make cfg))).pacer.sent messages ↔
      messages = [] := by
  constructor
  · intro hcarry
    by_contra hmessages
    have hlt := replay_counted leftover (s := make cfg) rfl
      (MoldUdpPacer.counted_make cfg .empty) hsize hmessages 0 0
    rw [Nat.zero_add, ← hcarry.length_eq] at hlt
    exact Nat.lt_irrefl _ hlt
  · rintro rfl
    have hend : start leftover (encodeBlocks []) =
        (return () : EStateM Failure ReplaySession Unit) :=
      processIostreamMlist_short Nat.two_pos
    rw [hend]
    exact ⟨[], List.Forall₂.nil, rfl⟩

/-- A `system_event_message` at midnight. -/
def systemEvent : List UInt8 :=
  ['S'.toNat.toUInt8, 0, 0, 0, 0, 0, 0, 0, 0, 0, 0, 'O'.toNat.toUInt8]

theorem start_sends_iff_systemEvent :
    (∀ message ∈ [systemEvent], message.length < 65536) ∧
      (Carry (finalState ((start (fun _ _ => 0) (encodeBlocks [systemEvent])).run
        (make .defaults))).pacer.sent [systemEvent] ↔ [systemEvent] = []) :=
  ⟨by decide, start_sends_iff .defaults (fun _ _ => 0) (by decide)⟩

/-- The replay of a single message ends without an exception and sends nothing. -/
theorem systemEvent_not_sent :
    (∃ s, (start (fun _ _ => 0) (encodeBlocks [systemEvent])).run (make .defaults) = .ok () s ∧
      s.pacer.sent = []) ∧ ¬ Carry [] [systemEvent] := by
  constructor
  · have hend : processIostreamMlist [] handler (fun _ _ => 0) (0 + 1)
        (0 + 2 + UInt64.ofNat systemEvent.length) (.ofBytes (encodeBlocks [])) =
        (return () : EStateM Failure ReplaySession Unit) :=
      processIostreamMlist_short Nat.two_pos
    rw [start, processIostreamMlist_message (by decide), hend]
    exact ⟨_, rfl, rfl⟩
  · intro hcarry
    cases hcarry.length_eq

end ReplaySession

end JayBeams.Itch5
