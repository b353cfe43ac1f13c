import JayBeams.Itch5.MessageHeader
import JayBeams.Itch5.MoldUdpPacket
import JayBeams.Itch5.ShortStringField
import JayBeams.Library.Machine

/-!
# The MoldUDP64 pacer

The pacer receives the messages of a feed and sends them as MoldUDP64 packets. Messages that are close
in time are put into one packet, which is sent when it is full, when the next message comes late, or
on request. In the model the pacer records the packets that it gave to its sink and the times that it
asked its sleeper for.

`flushed` is the pacer after its packet was sent and `appended` the one after a message was appended;
the functions of the pacer are compositions of these two (`flush_run`, `heartbeat_run`,
`coalesce_run`).
-/

set_option autoImplicit false

namespace JayBeams.Itch5

open Bytes Machines Machines.Machine MoldUdpProtocol MoldUdpPacket

/-- `mold_udp_pacer_config` -/
structure MoldUdpPacerConfig where
  maximumDelayMicroseconds : Int
  maximumTransmissionUnit : Int

namespace MoldUdpPacerConfig

/-- The members of `defaults` -/
def defaults : MoldUdpPacerConfig := ⟨100, 508⟩

/-- `validate` -/
def validate (cfg : MoldUdpPacerConfig) : Except Failure Unit := do
  let maxUdpPayload : Int := 65535
  if cfg.maximumTransmissionUnit < headerSize ∨ maxUdpPayload ≤ cfg.maximumTransmissionUnit then
    throw (.usage (s!"--maximum-transimission-unit must be in the [{headerSize},{maxUdpPayload}]" ++
      s!" range, value={cfg.maximumTransmissionUnit}") 1)
  -- five minutes
  let dayInUsecs : Int := 5 * 60 * 1000000
  if cfg.maximumDelayMicroseconds ≤ 0 ∨ dayInUsecs ≤ cfg.maximumDelayMicroseconds then
    throw (.usage (s!"--maximum-delay-microseconds must be in the [0,{dayInUsecs} (24 hours)]" ++
      s!" range, value={cfg.maximumDelayMicroseconds}") 1)

theorem validate_defaults : validate defaults = .ok () := rfl

/-- What `validate` accepts. -/
theorem validate_ok_iff (cfg : MoldUdpPacerConfig) :
    cfg.validate = .ok () ↔
      (20 ≤ cfg.maximumTransmissionUnit ∧ cfg.maximumTransmissionUnit < 65535) ∧
        0 < cfg.maximumDelayMicroseconds ∧ cfg.maximumDelayMicroseconds < 300000000 := by
  have hheader : ((headerSize : Nat) : Int) = 20 := rfl
  simp only [validate, hheader]
  constructor
  · intro h
    split at h
    · cases h
    · split at h
      · cases h
      · omega
  · rintro ⟨hmtu, hdelay⟩
    rw [if_neg (by omega), if_neg (by omega)]
    rfl

end MoldUdpPacerConfig

/-- `mold_udp_pacer`, with the packets given to its sink and the durations given to its sleeper. Times
are in nanoseconds. -/
structure MoldUdpPacer where
  lastSend : Int
  maxDelay : Int
  mtu : Int
  packet : Memory
  packetSize : Nat
  firstBlock : UInt32
  firstBlockTs : Int
  blockCount : UInt16
  sent : List (List UInt8)
  slept : List Int

namespace MoldUdpPacer

/-- `rawbufsize` -/
def rawbufsize : Nat := 65536

/-- The constructor -/
def make (cfg : MoldUdpPacerConfig) (sessionId : ShortStringField sessionIdSize) : MoldUdpPacer where
  lastSend := 0
  maxDelay := cfg.maximumDelayMicroseconds * 1000
  mtu := cfg.maximumTransmissionUnit
  packet := Memory.write (fun _ => 0) 0 (sessionId.buffer.read 0 sessionIdSize)
  packetSize := headerSize
  firstBlock := 0
  firstBlockTs := 0
  blockCount := 0
  sent := []
  slept := []

/-- Conversion to a `std::size_t`. -/
def toSizeT (x : Int) : Nat := (x % 18446744073709551616).toNat

/-- `packet_full` -/
def packetFull (p : MoldUdpPacer) (blockSize : UInt16) : Bool :=
  toSizeT p.mtu ≤ blockSize.toNat + 2 + p.packetSize || p.blockCount == 65535

/-- `fillup_header_fields` -/
def fillupHeaderFields : EStateM Failure MoldUdpPacer Unit := do
  let p ← get
  let packet ← liftExcept (Encoder.uint64 true (rawbufsize - sequenceNumberOffset) p.packet
    sequenceNumberOffset 0 p.firstBlock.toUInt64)
  modify fun p => { p with packet := packet }
  let packet ← liftExcept (Encoder.uint16 true (rawbufsize - blockCountOffset) packet
    blockCountOffset 0 p.blockCount)
  modify fun p => { p with packet := packet }

/-- `flush_impl` -/
def flushImpl (ts : Int) : EStateM Failure MoldUdpPacer Unit := do
  fillupHeaderFields
  modify fun p => { p with sent := p.sent ++ [p.packet.read 0 p.packetSize] }
  modify fun p =>
    { p with
      lastSend := ts
      firstBlock := p.firstBlock + p.blockCount.toUInt32
      blockCount := 0
      packetSize := headerSize }

/-- `flush` -/
def flush (ts : Int) : EStateM Failure MoldUdpPacer Unit := do
  let p ← get
  if p.blockCount = 0 then return ()
  flushImpl ts

/-- `heartbeat` -/
def heartbeat : EStateM Failure MoldUdpPacer Unit := do
  let p ← get
  flushImpl p.firstBlockTs

/-- The part of `coalesce` that appends a message to a packet with room for it. -/
def appendBlock (msg : UnknownMessage) (ts : Int) : EStateM Failure MoldUdpPacer Unit := do
  modify fun p =>
    if p.blockCount = 0 then { p with firstBlock := msg.count, firstBlockTs := ts } else p
  let p ← get
  -- the header of the block, then the message
  let packet ← liftExcept (Encoder.uint16 true (rawbufsize - p.packetSize) p.packet p.packetSize 0
    (UInt16.ofNat msg.len))
  let payload := p.packetSize + 2
  set { p with
    packet := packet.write payload (msg.bytes.take (rawbufsize - payload))
    packetSize := p.packetSize + (msg.len + 2)
    blockCount := p.blockCount + 1 }

/-- `coalesce`; the time at which the message was received is not used -/
def coalesce (msg : UnknownMessage) (ts : Int) : EStateM Failure MoldUdpPacer Unit := do
  let p ← get
  assertThrow "msg.len() < (1 << 16)" (msg.len < 65536)
  assertThrow "msg.len() + 2 < mtu_ - mold_udp_protocol::header_size"
    (msg.len + 2 < toSizeT (p.mtu - headerSize))
  -- a packet too full to accept the message is sent first
  if p.packetFull (UInt16.ofNat msg.len) then flush ts
  appendBlock msg ts

/-- `handle_message`; the time at which the message was received is only handed to `coalesce` -/
def handleMessage (msg : UnknownMessage) : EStateM Failure MoldUdpPacer Unit := do
  let msghdr ← liftExcept (msg.decodeHeader false)
  -- the first message is not late
  if msg.count = 0 then modify fun p => { p with lastSend := msghdr.timestamp }
  let p ← get
  let elapsed := msghdr.timestamp - p.lastSend
  if elapsed < p.maxDelay then
    coalesce msg msghdr.timestamp
    return ()
  flush msghdr.timestamp
  modify fun p => { p with slept := p.slept ++ [elapsed] }
  coalesce msg msghdr.timestamp

/-- The calls to a pacer. -/
inductive Call where
  | handleMessage (msg : UnknownMessage)
  | flush (ts : Int)
  | heartbeat

/-- Make a call. -/
def apply : Call → EStateM Failure MoldUdpPacer Unit
  | .handleMessage msg => handleMessage msg
  | .flush ts => flush ts
  | .heartbeat => heartbeat

/-- The pacer as a machine. -/
def machine : Machine MoldUdpPacer Call (Except Failure Unit) := Machine.ofAction apply

/-! ## Runs of the functions -/

/-- The buffer with the fields of the header filled in. -/
def headed (p : MoldUdpPacer) : Memory :=
  (p.packet.write sequenceNumberOffset (bytes64 p.firstBlock.toUInt64)).write blockCountOffset
    (bytes16 p.blockCount)

/-- The pacer after its packet was sent. -/
def flushed (p : MoldUdpPacer) (ts : Int) : MoldUdpPacer :=
  { p with
    packet := p.headed
    sent := p.sent ++ [p.headed.read 0 p.packetSize]
    lastSend := ts
    firstBlock := p.firstBlock + p.blockCount.toUInt32
    blockCount := 0
    packetSize := headerSize }

theorem flushImpl_run (p : MoldUdpPacer) (ts : Int) : (flushImpl ts).run p = .ok () (p.flushed ts) := by
  have h8 : 0 + 8 ≤ rawbufsize - sequenceNumberOffset := by decide
  have h2 : 0 + 2 ≤ rawbufsize - blockCountOffset := by decide
  simp only [flushImpl, fillupHeaderFields, EStateM.run_bind, EStateM.run_get,
    Encoder.uint64_ok _ _ true h8, Encoder.uint16_ok _ _ true h2, liftExcept_run_ok rfl,
    EStateM.run_modify]
  rfl

theorem flush_run (p : MoldUdpPacer) (ts : Int) :
    (flush ts).run p = .ok () (if p.blockCount = 0 then p else p.flushed ts) := by
  simp only [flush, EStateM.run_bind, EStateM.run_get]
  split_ifs
  · rfl
  · exact flushImpl_run p ts

theorem heartbeat_run (p : MoldUdpPacer) : heartbeat.run p = .ok () (p.flushed p.firstBlockTs) := by
  simp only [heartbeat, EStateM.run_bind, EStateM.run_get]
  exact flushImpl_run p p.firstBlockTs

/-- The pacer with a message appended to its packet. -/
def appended (p : MoldUdpPacer) (msg : UnknownMessage) (ts : Int) : MoldUdpPacer :=
  { p with
    firstBlock := if p.blockCount = 0 then msg.count else p.firstBlock
    firstBlockTs := if p.blockCount = 0 then ts else p.firstBlockTs
    packet := (p.packet.write p.packetSize (bytes16 (UInt16.ofNat msg.len))).write (p.packetSize + 2)
      (msg.bytes.take (rawbufsize - (p.packetSize + 2)))
    packetSize := p.packetSize + (msg.len + 2)
    blockCount := p.blockCount + 1 }

/-- The pacer with room for a message: a packet that is too full was sent. -/
def withRoom (p : MoldUdpPacer) (msg : UnknownMessage) (ts : Int) : MoldUdpPacer :=
  if p.packetFull (UInt16.ofNat msg.len) then
    if p.blockCount = 0 then p else p.flushed ts
  else p

theorem appendBlock_run {p : MoldUdpPacer} (msg : UnknownMessage) (ts : Int)
    (hsize : p.packetSize + 2 ≤ rawbufsize) :
    (appendBlock msg ts).run p = .ok () (p.appended msg ts) := by
  have hwrite : 0 + 2 ≤ rawbufsize - p.packetSize := by omega
  simp only [appendBlock, EStateM.run_bind, EStateM.run_get, EStateM.run_modify]
  split_ifs with hempty
  · simp only [Encoder.uint16_ok _ _ true hwrite, liftExcept_run_ok rfl, appended, if_pos hempty]
    rfl
  · simp only [Encoder.uint16_ok _ _ true hwrite, liftExcept_run_ok rfl, appended, if_neg hempty]
    rfl

/-- A message that fits in a packet is appended once there is room for it. -/
theorem coalesce_appends (p : MoldUdpPacer) {msg : UnknownMessage} (ts : Int) (hlen : msg.len < 65536)
    (hmtu : msg.len + 2 < toSizeT (p.mtu - headerSize)) :
    (coalesce msg ts).run p = (appendBlock msg ts).run (p.withRoom msg ts) := by
  rw [withRoom]
  simp only [coalesce, EStateM.run_bind, EStateM.run_get, assertThrow, hlen, hmtu, decide_true,
    if_true, EStateM.run_pure]
  split_ifs with hfull hempty
  · simp only [EStateM.run_bind, flush_run, if_pos hempty]
  · simp only [EStateM.run_bind, flush_run, if_neg hempty]
  · rfl

theorem coalesce_run {p : MoldUdpPacer} {msg : UnknownMessage} (ts : Int) (hlen : msg.len < 65536)
    (hmtu : msg.len + 2 < toSizeT (p.mtu - headerSize))
    (hsize : (p.withRoom msg ts).packetSize + 2 ≤ rawbufsize) :
    (coalesce msg ts).run p = .ok () ((p.withRoom msg ts).appended msg ts) := by
  rw [coalesce_appends p ts hlen hmtu]
  exact appendBlock_run msg ts hsize

/-- A message too large for a packet is refused, and nothing changes. -/
theorem coalesce_refused {p : MoldUdpPacer} {msg : UnknownMessage} (ts : Int)
    (h : msg.len < 65536 → ¬ msg.len + 2 < toSizeT (p.mtu - headerSize)) :
    ∃ e, (coalesce msg ts).run p = .error e p := by
  by_cases hlen : msg.len < 65536
  · refine ⟨.assertion "msg.len() + 2 < mtu_ - mold_udp_protocol::header_size", ?_⟩
    simp only [coalesce, EStateM.run_bind, EStateM.run_get, assertThrow, hlen, h hlen,
      decide_true, decide_false, if_true, EStateM.run_pure, Bool.false_eq_true, if_false]
    rfl
  · refine ⟨.assertion "msg.len() < (1 << 16)", ?_⟩
    simp only [coalesce, EStateM.run_bind, EStateM.run_get, assertThrow, hlen, decide_false,
      Bool.false_eq_true, if_false]
    rfl

/-- The pacer after it looked whether a message is the first one. -/
def started (p : MoldUdpPacer) (msg : UnknownMessage) (ts : Int) : MoldUdpPacer :=
  if msg.count = 0 then { p with lastSend := ts } else p

theorem handleMessage_run (p : MoldUdpPacer) {msg : UnknownMessage} {header : MessageHeader}
    (hheader : msg.decodeHeader false = .ok header) :
    (handleMessage msg).run p =
      (if header.timestamp - (p.started msg header.timestamp).lastSend < p.maxDelay then
          coalesce msg header.timestamp
        else do
          flush header.timestamp
          modify fun q =>
            { q with slept := q.slept ++ [header.timestamp -
              (p.started msg header.timestamp).lastSend] }
          coalesce msg header.timestamp : EStateM Failure MoldUdpPacer Unit).run
        (p.started msg header.timestamp) := by
  simp only [handleMessage, hheader, EStateM.run_bind, liftExcept_run_ok rfl, started]
  split_ifs with hfirst hlate hlate
  · simp only [EStateM.run_bind, EStateM.run_modify, EStateM.run_get, if_pos hlate]
    cases (coalesce msg header.timestamp).run { p with lastSend := header.timestamp } <;> rfl
  · simp only [EStateM.run_bind, EStateM.run_modify, EStateM.run_get, if_neg hlate]
  · simp only [EStateM.run_bind, EStateM.run_get, if_pos hlate]
    cases (coalesce msg header.timestamp).run p <;> rfl
  · simp only [EStateM.run_bind, EStateM.run_get, if_neg hlate]

end MoldUdpPacer

end JayBeams.Itch5
