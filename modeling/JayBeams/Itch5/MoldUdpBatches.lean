import JayBeams.Itch5.MoldUdpPacer

/-!
# The batches of the pacer

The messages that the pacer was given are those that it sent, in batches of one packet each, followed
by those that wait in its buffer. `HoldsBlocks` says of a state that the buffer holds the blocks of the
waiting messages, and `Batched` that the packets sent are `packetsOf` the batches besides.

Sending the packet makes the waiting messages a batch (`Batched.flushed`), and a message that comes
in waits at the end (`Batched.appended`). Along a run the messages are never lost, doubled or reordered
(`batched_run`).
-/

set_option autoImplicit false

namespace JayBeams.Itch5

open Bytes Machines Machines.Machine MoldUdpProtocol MoldUdpPacket

namespace MoldUdpPacket

/-- The packets of batches of messages, of which the first message has the number `k`. The numbers
in the headers are 32-bit integers. -/
def packetsOf (sessionId : List UInt8) : Nat → List (List (List UInt8)) → List (List UInt8)
  | _, [] => []
  | k, batch :: batches =>
      encodePacket sessionId (UInt32.ofNat k).toUInt64 batch ::
        packetsOf sessionId (k + batch.length) batches

theorem packetsOf_append (sessionId : List UInt8) (k : Nat) (batches : List (List (List UInt8)))
    (batch : List (List UInt8)) :
    packetsOf sessionId k (batches ++ [batch]) = packetsOf sessionId k batches ++
      [encodePacket sessionId (UInt32.ofNat (k + batches.flatten.length)).toUInt64 batch] := by
  induction batches generalizing k with
  | nil => rfl
  | cons first batches ih =>
      rw [List.cons_append, packetsOf, ih, packetsOf, List.cons_append, List.flatten_cons,
        List.length_append, Nat.add_assoc]

/-- The batch fits in one packet: the count and the sizes of its messages are 16-bit integers. -/
def Fits (batch : List (List UInt8)) : Prop :=
  batch.length < 65536 ∧ ∀ message ∈ batch, message.length < 65536

end MoldUdpPacket

namespace MoldUdpPacer

/-! ## The buffer -/

/-- The buffer holds the blocks of the waiting messages. -/
structure HoldsBlocks (sessionId : List UInt8) (p : MoldUdpPacer) (waiting : List (List UInt8)) :
    Prop where
  fits : Fits waiting
  session : p.packet.read 0 sessionIdSize = sessionId
  body : p.packet.read headerSize (encodeBlocks waiting).length = encodeBlocks waiting
  size : p.packetSize = headerSize + (encodeBlocks waiting).length
  count : p.blockCount = UInt16.ofNat waiting.length

namespace HoldsBlocks

variable {sessionId : List UInt8} {p : MoldUdpPacer} {waiting : List (List UInt8)}

/-- The count of blocks is that of the waiting messages. -/
theorem toNat_blockCount (h : HoldsBlocks sessionId p waiting) :
    p.blockCount.toNat = waiting.length := by
  rw [h.count, UInt16.toNat_ofNat', Nat.mod_eq_of_lt h.fits.1]

/-- Nothing waits exactly when the count of blocks is zero. -/
theorem blockCount_eq_zero_iff (h : HoldsBlocks sessionId p waiting) :
    p.blockCount = 0 ↔ waiting = [] := by
  rw [← UInt16.toNat_inj, h.toNat_blockCount]
  exact List.length_eq_zero_iff

/-- The packet in the buffer, with its header filled in. -/
theorem read_headed (h : HoldsBlocks sessionId p waiting) :
    p.headed.read 0 p.packetSize = encodePacket sessionId p.firstBlock.toUInt64 waiting := by
  have hsize : p.packetSize = sessionIdSize + (8 + (2 + (encodeBlocks waiting).length)) := by
    rw [h.size, headerSize, blockCountOffset, sequenceNumberOffset]
    omega
  have hsession : p.headed.read 0 sessionIdSize = sessionId := by
    rw [headed, Memory.read_write_disjoint _ _ _ (Or.inl (by decide)),
      Memory.read_write_disjoint _ _ _ (Or.inl (by decide)), h.session]
  have hnumber : p.headed.read sequenceNumberOffset 8 = bytes64 p.firstBlock.toUInt64 := by
    rw [headed, Memory.read_write_disjoint _ _ _ (Or.inl (by decide))]
    exact Memory.read_write_self _ _ _
  have hcount : p.headed.read blockCountOffset 2 = bytes16 p.blockCount :=
    Memory.read_write_self _ _ _
  have hbody : p.headed.read headerSize (encodeBlocks waiting).length = encodeBlocks waiting := by
    rw [headed, Memory.read_write_disjoint _ _ _ (Or.inr (by rw [length_bytes16]; decide)),
      Memory.read_write_disjoint _ _ _ (Or.inr (by rw [length_bytes64]; decide)), h.body]
  rw [hsize, Memory.read_add, Memory.read_add, Memory.read_add, hsession, Nat.zero_add]
  change sessionId ++ (p.headed.read sequenceNumberOffset 8 ++ (p.headed.read blockCountOffset 2 ++
    p.headed.read headerSize (encodeBlocks waiting).length)) = _
  rw [hnumber, hcount, hbody, h.count, encodePacket]

/-- Nothing waits once the packet was sent. -/
theorem flushed (h : HoldsBlocks sessionId p waiting) (ts : Int) :
    HoldsBlocks sessionId (p.flushed ts) [] where
  fits := ⟨by decide, by simp⟩
  session := by
    have hkeep : p.headed.read 0 sessionIdSize = p.packet.read 0 sessionIdSize := by
      rw [headed, Memory.read_write_disjoint _ _ _ (Or.inl (by decide)),
        Memory.read_write_disjoint _ _ _ (Or.inl (by decide))]
    exact hkeep.trans h.session
  body := rfl
  size := rfl
  count := rfl

/-- The two writes of a message put its block behind the blocks that are there. -/
theorem packet_appended {msg : UnknownMessage} (ts : Int)
    (hroom : p.packetSize + (msg.len + 2) ≤ rawbufsize) :
    (p.appended msg ts).packet = p.packet.write p.packetSize (encodeBlock msg.bytes) := by
  have htake : msg.bytes.take (rawbufsize - (p.packetSize + 2)) = msg.bytes := by
    apply List.take_of_length_le
    rw [UnknownMessage.length_bytes]
    omega
  rw [encodeBlock, Memory.write_append, UnknownMessage.length_bytes, length_bytes16]
  simp only [MoldUdpPacer.appended, htake]

/-- A message that comes in waits at the end. -/
theorem appended (h : HoldsBlocks sessionId p waiting) {msg : UnknownMessage} (ts : Int)
    (hroom : p.packetSize + (msg.len + 2) ≤ rawbufsize) (hlen : msg.len < 65536)
    (hfew : waiting.length + 1 < 65536) :
    HoldsBlocks sessionId (p.appended msg ts) (waiting ++ [msg.bytes]) := by
  have hsize := h.size
  have hpacket := packet_appended ts hroom
  have hblocks : (encodeBlocks (waiting ++ [msg.bytes])).length =
      (encodeBlocks waiting).length + (msg.len + 2) := by
    rw [encodeBlocks_append, List.length_append, length_encodeBlock, UnknownMessage.length_bytes]
  constructor
  case fits =>
    refine ⟨by simpa using hfew, fun message hmessage => ?_⟩
    rcases List.mem_append.1 hmessage with hmessage | hmessage
    · exact h.fits.2 message hmessage
    · rw [List.mem_singleton.1 hmessage, UnknownMessage.length_bytes]
      exact hlen
  case session =>
    rw [hpacket, Memory.read_write_disjoint _ _ _ (Or.inl ?_), h.session]
    rw [hsize, headerSize, blockCountOffset, sequenceNumberOffset]
    omega
  case body =>
    have hblock : (p.packet.write p.packetSize (encodeBlock msg.bytes)).read p.packetSize
        (msg.len + 2) = encodeBlock msg.bytes := by
      have hself := Memory.read_write_self p.packet p.packetSize (encodeBlock msg.bytes)
      rwa [length_encodeBlock, UnknownMessage.length_bytes] at hself
    rw [hpacket, hblocks, Memory.read_add, ← hsize, hblock, encodeBlocks_append,
      Memory.read_write_disjoint _ _ _ (Or.inl (by omega)), h.body]
  case size =>
    rw [hblocks, ← Nat.add_assoc, ← hsize]
    rfl
  case count =>
    change p.blockCount + 1 = _
    rw [h.count, List.length_append, List.length_singleton, UInt16.ofNat_add]
    rfl

theorem setLastSend (h : HoldsBlocks sessionId p waiting) (ts : Int) :
    HoldsBlocks sessionId { p with lastSend := ts } waiting :=
  ⟨h.fits, h.session, h.body, h.size, h.count⟩

theorem setSlept (h : HoldsBlocks sessionId p waiting) (slept : List Int) :
    HoldsBlocks sessionId { p with slept := slept } waiting :=
  ⟨h.fits, h.session, h.body, h.size, h.count⟩

theorem toSizeT_of_nonneg {x : Int} (h0 : 0 ≤ x) (h1 : x < 65535) : toSizeT x = x.toNat := by
  rw [toSizeT, Int.emod_eq_of_lt h0 (by omega)]

/-- There is room for a message once a packet that is too full was sent. -/
theorem withRoom_room (h : HoldsBlocks sessionId p waiting) {msg : UnknownMessage}
    (hlt : p.mtu < 65535) (hlen : (msg.len : Int) + 2 < p.mtu - headerSize) (ts : Int) :
    ∃ waiting', HoldsBlocks sessionId (p.withRoom msg ts) waiting' ∧
      (((p.withRoom msg ts).packetSize + (msg.len + 2) : Nat) : Int) < p.mtu ∧
      waiting'.length + 1 < 65536 ∧
      (p.withRoom msg ts = p ∧ waiting' = waiting ∨
        p.withRoom msg ts = p.flushed ts ∧ waiting ≠ [] ∧ waiting' = []) := by
  have hheader : ((headerSize : Nat) : Int) = 20 := rfl
  have hmtu : toSizeT p.mtu = p.mtu.toNat := toSizeT_of_nonneg (by omega) hlt
  have hlen16 : (UInt16.ofNat msg.len).toNat = msg.len := by
    rw [UInt16.toNat_ofNat']
    exact Nat.mod_eq_of_lt (by omega)
  rw [withRoom]
  split_ifs with hfull hempty
  · -- a packet without messages has room
    have hnil := h.blockCount_eq_zero_iff.1 hempty
    subst hnil
    have hsize : p.packetSize = headerSize := h.size
    exact ⟨[], h, by omega, by decide, Or.inl ⟨rfl, rfl⟩⟩
  · have hsome : waiting ≠ [] := fun hnil => hempty (h.blockCount_eq_zero_iff.2 hnil)
    refine ⟨[], h.flushed ts, ?_, by decide, Or.inr ⟨rfl, hsome, rfl⟩⟩
    change ((headerSize + (msg.len + 2) : Nat) : Int) < p.mtu
    omega
  · rw [packetFull, Bool.or_eq_true, not_or, decide_eq_true_eq, beq_iff_eq, hmtu, hlen16] at hfull
    have hcount := h.toNat_blockCount
    have hne : p.blockCount.toNat ≠ 65535 := fun heq => hfull.2 (UInt16.toNat_inj.1 heq)
    have hfits := h.fits.1
    exact ⟨waiting, h, by omega, by omega, Or.inl ⟨rfl, rfl⟩⟩

end HoldsBlocks

theorem holdsBlocks_make (cfg : MoldUdpPacerConfig) (sessionId : ShortStringField sessionIdSize) :
    HoldsBlocks (sessionId.buffer.read 0 sessionIdSize) (make cfg sessionId) [] where
  fits := ⟨by decide, by simp⟩
  session := by
    have hself := Memory.read_write_self (fun _ => 0) 0 (sessionId.buffer.read 0 sessionIdSize)
    rwa [Memory.length_read] at hself
  body := rfl
  size := rfl
  count := rfl

/-! ## The batches -/

/-- The packets that the pacer sent carry the batches, its buffer holds the waiting messages, and no
packet is larger than the `mtu`. -/
structure Batched (sessionId : List UInt8) (mtu : Int) (p : MoldUdpPacer)
    (batches : List (List (List UInt8))) (waiting : List (List UInt8)) : Prop where
  sent : p.sent = packetsOf sessionId 0 batches
  sentFits : ∀ packet ∈ p.sent, (packet.length : Int) ≤ mtu
  batchFits : ∀ batch ∈ batches, Fits batch
  waitingFits : Fits waiting
  session : p.packet.read 0 sessionIdSize = sessionId
  body : p.packet.read headerSize (encodeBlocks waiting).length = encodeBlocks waiting
  size : p.packetSize = headerSize + (encodeBlocks waiting).length
  sizeFits : (p.packetSize : Int) ≤ mtu
  count : p.blockCount = UInt16.ofNat waiting.length
  first : p.firstBlock = UInt32.ofNat batches.flatten.length
  mtu_eq : p.mtu = mtu
  mtu_lt : mtu < 65535

variable {sessionId : List UInt8} {mtu : Int} {p : MoldUdpPacer} {batches : List (List (List UInt8))}
  {waiting : List (List UInt8)}

namespace Batched

theorem holds (h : Batched sessionId mtu p batches waiting) : HoldsBlocks sessionId p waiting :=
  ⟨h.waitingFits, h.session, h.body, h.size, h.count⟩

theorem length_session (h : Batched sessionId mtu p batches waiting) :
    sessionId.length = sessionIdSize := by
  rw [← h.session, Memory.length_read]

/-- Nothing waits exactly when the count of blocks is zero. -/
theorem blockCount_eq_zero_iff (h : Batched sessionId mtu p batches waiting) :
    p.blockCount = 0 ↔ waiting = [] := h.holds.blockCount_eq_zero_iff

/-- Sending the packet makes the waiting messages a batch. -/
theorem flushed (h : Batched sessionId mtu p batches waiting) (ts : Int) :
    Batched sessionId mtu (p.flushed ts) (batches ++ [waiting]) [] := by
  have hholds := h.holds.flushed ts
  constructor
  case sent =>
    rw [packetsOf_append, Nat.zero_add, ← h.first, ← h.sent, ← h.holds.read_headed]
    rfl
  case sentFits =>
    intro packet hpacket
    rcases List.mem_append.1 hpacket with hpacket | hpacket
    · exact h.sentFits packet hpacket
    · rw [List.mem_singleton.1 hpacket, Memory.length_read]
      exact h.sizeFits
  case batchFits =>
    intro batch hbatch
    rcases List.mem_append.1 hbatch with hbatch | hbatch
    · exact h.batchFits batch hbatch
    · rw [List.mem_singleton.1 hbatch]
      exact h.waitingFits
  case waitingFits => exact hholds.fits
  case session => exact hholds.session
  case body => exact hholds.body
  case size => exact hholds.size
  case sizeFits =>
    have hle := h.sizeFits
    rw [h.size] at hle
    change ((headerSize : Nat) : Int) ≤ mtu
    omega
  case count => exact hholds.count
  case first =>
    -- The next packet is numbered after the messages sent, counted with 32 bits.
    have hcount : p.blockCount.toUInt32 = UInt32.ofNat waiting.length := by
      rw [← UInt32.toNat_inj, UInt16.toNat_toUInt32, h.holds.toNat_blockCount, UInt32.toNat_ofNat']
      have hfew := h.waitingFits.1
      omega
    simp only [MoldUdpPacer.flushed, h.first, hcount, List.flatten_append, List.length_append,
      List.flatten_singleton, UInt32.ofNat_add]
  case mtu_eq => exact h.mtu_eq
  case mtu_lt => exact h.mtu_lt

/-- A message that comes in waits at the end. -/
theorem appended (h : Batched sessionId mtu p batches waiting) {msg : UnknownMessage} (ts : Int)
    (hcount : msg.count = UInt32.ofNat (batches.flatten ++ waiting).length)
    (hroom : ((p.packetSize + (msg.len + 2) : Nat) : Int) < mtu) (hfew : waiting.length + 1 < 65536) :
    Batched sessionId mtu (p.appended msg ts) batches (waiting ++ [msg.bytes]) := by
  have hlt := h.mtu_lt
  -- The `mtu` is smaller than the buffer.
  have hbuffer : p.packetSize + (msg.len + 2) ≤ rawbufsize := by
    rw [rawbufsize]
    omega
  have hholds := h.holds.appended ts hbuffer (by omega) hfew
  constructor
  case sent => exact h.sent
  case sentFits => exact h.sentFits
  case batchFits => exact h.batchFits
  case waitingFits => exact hholds.fits
  case session => exact hholds.session
  case body => exact hholds.body
  case size => exact hholds.size
  case sizeFits => exact Int.le_of_lt hroom
  case count => exact hholds.count
  case first =>
    change (if p.blockCount = 0 then msg.count else p.firstBlock) = _
    split_ifs with hempty
    · rw [hcount, h.blockCount_eq_zero_iff.1 hempty, List.append_nil]
    · exact h.first
  case mtu_eq => exact h.mtu_eq
  case mtu_lt => exact hlt

theorem setLastSend (h : Batched sessionId mtu p batches waiting) (ts : Int) :
    Batched sessionId mtu { p with lastSend := ts } batches waiting :=
  ⟨h.sent, h.sentFits, h.batchFits, h.waitingFits, h.session, h.body, h.size, h.sizeFits, h.count,
    h.first, h.mtu_eq, h.mtu_lt⟩

/-- The time of the last packet does not matter to what is sent. -/
theorem started (h : Batched sessionId mtu p batches waiting) (msg : UnknownMessage) (ts : Int) :
    Batched sessionId mtu (p.started msg ts) batches waiting := by
  rw [MoldUdpPacer.started]
  split_ifs
  · exact h.setLastSend ts
  · exact h

theorem setSlept (h : Batched sessionId mtu p batches waiting) (slept : List Int) :
    Batched sessionId mtu { p with slept := slept } batches waiting :=
  ⟨h.sent, h.sentFits, h.batchFits, h.waitingFits, h.session, h.body, h.size, h.sizeFits, h.count,
    h.first, h.mtu_eq, h.mtu_lt⟩

end Batched

theorem batched_make {cfg : MoldUdpPacerConfig} (hcfg : cfg.validate = .ok ())
    (sessionId : ShortStringField sessionIdSize) :
    Batched (sessionId.buffer.read 0 sessionIdSize) cfg.maximumTransmissionUnit (make cfg sessionId)
      [] [] := by
  obtain ⟨hfits, hsession, hbody, hsize, hcount⟩ := holdsBlocks_make cfg sessionId
  obtain ⟨⟨hmtu, hlt⟩, -⟩ := cfg.validate_ok_iff.1 hcfg
  exact ⟨rfl, by simp [make], by simp, hfits, hsession, hbody, hsize, hmtu, hcount, rfl, rfl, hlt⟩

/-! ## Calls -/

/-- The message has a header and fits in a packet. -/
def Sendable (mtu : Int) (msg : UnknownMessage) : Prop :=
  11 ≤ msg.len ∧ (msg.len : Int) + 2 < mtu - headerSize

/-- Sending the packet, if anything waits. -/
theorem flush_sends (h : Batched sessionId mtu p batches waiting) (ts : Int) :
    ∃ p' batches', (flush ts).run p = .ok () p' ∧ Batched sessionId mtu p' batches' [] ∧
      batches'.flatten = batches.flatten ++ waiting := by
  rw [flush_run]
  split_ifs with hempty
  · have hnil := h.blockCount_eq_zero_iff.1 hempty
    subst hnil
    exact ⟨p, batches, rfl, h, (List.append_nil _).symm⟩
  · refine ⟨_, _, rfl, h.flushed ts, ?_⟩
    rw [List.flatten_append, List.flatten_singleton]

/-- There is room for a message once a packet that is too full was sent. -/
theorem withRoom_sends (h : Batched sessionId mtu p batches waiting) {msg : UnknownMessage}
    (hmsg : Sendable mtu msg) (ts : Int) :
    ∃ batches' waiting', Batched sessionId mtu (p.withRoom msg ts) batches' waiting' ∧
      batches'.flatten ++ waiting' = batches.flatten ++ waiting ∧
      (((p.withRoom msg ts).packetSize + (msg.len + 2) : Nat) : Int) < mtu ∧
      waiting'.length + 1 < 65536 := by
  obtain ⟨waiting', -, hroom, hfew, hcases⟩ := h.holds.withRoom_room (h.mtu_eq ▸ h.mtu_lt)
    (h.mtu_eq ▸ hmsg.2) ts
  rw [h.mtu_eq] at hroom
  rcases hcases with ⟨hsame, rfl⟩ | ⟨hsent, -, rfl⟩
  · exact ⟨batches, waiting', by rw [hsame]; exact h, rfl, hroom, hfew⟩
  · refine ⟨_, [], by rw [hsent]; exact h.flushed ts, ?_, hroom, hfew⟩
    rw [List.flatten_append, List.flatten_singleton, List.append_nil]

/-- A message that the pacer takes waits behind those before it, some of which may have been sent. -/
theorem coalesce_sends (h : Batched sessionId mtu p batches waiting) {msg : UnknownMessage}
    (hmsg : Sendable mtu msg)
    (hcount : msg.count = UInt32.ofNat (batches.flatten ++ waiting).length) (ts : Int) :
    ∃ p' batches' waiting', (coalesce msg ts).run p = .ok () p' ∧
      Batched sessionId mtu p' batches' (waiting' ++ [msg.bytes]) ∧
      batches'.flatten ++ waiting' = batches.flatten ++ waiting := by
  obtain ⟨batches', waiting', hroom, hsame, hsize, hfew⟩ := withRoom_sends h hmsg ts
  have hheader : ((headerSize : Nat) : Int) = 20 := rfl
  have hlt := h.mtu_lt
  have hlen := hmsg.2
  -- The room left by the header is positive, so the conversion to `size_t` keeps it.
  have hmtu : msg.len + 2 < toSizeT (p.mtu - headerSize) := by
    rw [h.mtu_eq, HoldsBlocks.toSizeT_of_nonneg (by omega) (by omega)]
    omega
  refine ⟨_, batches', waiting', coalesce_run ts (by omega) hmtu ?_, ?_, hsame⟩
  · rw [rawbufsize]
    omega
  · exact hroom.appended ts (by rw [hsame, hcount]) hsize hfew

/-- Handling a message never raises, and no message is lost, doubled or moved. -/
theorem handleMessage_sends (h : Batched sessionId mtu p batches waiting) {msg : UnknownMessage}
    (hmsg : Sendable mtu msg)
    (hcount : msg.count = UInt32.ofNat (batches.flatten ++ waiting).length) :
    ∃ p' batches' waiting', (handleMessage msg).run p = .ok () p' ∧
      Batched sessionId mtu p' batches' (waiting' ++ [msg.bytes]) ∧
      batches'.flatten ++ waiting' = batches.flatten ++ waiting := by
  obtain ⟨header, hheader⟩ := msg.decodeHeader_unchecked
  have hq := h.started msg header.timestamp
  rw [handleMessage_run p hheader]
  split_ifs
  · exact coalesce_sends hq hmsg hcount header.timestamp
  · obtain ⟨r, sentBatches, hrun, hr, hflat⟩ := flush_sends hq header.timestamp
    obtain ⟨p', batches', waiting', hrun', hp', hsame⟩ := coalesce_sends
      (hr.setSlept (r.slept ++ [_])) hmsg (by rw [hcount, List.append_nil, hflat]) header.timestamp
    refine ⟨p', batches', waiting', ?_, hp', by rw [hsame, List.append_nil, hflat]⟩
    simp only [EStateM.run_bind, hrun, EStateM.run_modify]
    exact hrun'

/-- The message that a call brings. -/
def Call.message? : Call → Option UnknownMessage
  | .handleMessage msg => some msg
  | .flush _ => none
  | .heartbeat => none

/-- The messages of calls. -/
def received (calls : List Call) : List UnknownMessage := calls.filterMap Call.message?

/-- The messages are numbered one after the other, the first with `k`. -/
def NumberedFrom (k : Nat) (msgs : List UnknownMessage) : Prop :=
  ∀ i (h : i < msgs.length), msgs[i].count.toNat = k + i

theorem NumberedFrom.tail {k : Nat} {msg : UnknownMessage} {msgs : List UnknownMessage}
    (h : NumberedFrom k (msg :: msgs)) : NumberedFrom (k + 1) msgs := by
  intro i hi
  have hnext := h (i + 1) (Nat.succ_lt_succ hi)
  rw [List.getElem_cons_succ] at hnext
  omega

/-- A call moves messages from the feed to the waiting ones, and from there to a batch. -/
theorem apply_sends (h : Batched sessionId mtu p batches waiting) (call : Call)
    (hmsg : ∀ msg, call.message? = some msg →
      Sendable mtu msg ∧ msg.count.toNat = (batches.flatten ++ waiting).length) :
    ∃ p' batches' waiting', machine.step p call = (.ok (), p') ∧
      Batched sessionId mtu p' batches' waiting' ∧
      batches'.flatten ++ waiting' =
        batches.flatten ++ waiting ++ (received [call]).map UnknownMessage.bytes := by
  cases call with
  | handleMessage msg =>
      obtain ⟨hsend, hcount⟩ := hmsg msg rfl
      have hcount32 : msg.count = UInt32.ofNat (batches.flatten ++ waiting).length := by
        rw [← hcount, UInt32.ofNat_toNat]
      obtain ⟨p', batches', waiting', hrun, hp', hsame⟩ := handleMessage_sends h hsend hcount32
      refine ⟨p', batches', waiting' ++ [msg.bytes], ofAction_step_ok hrun, hp', ?_⟩
      rw [← List.append_assoc, hsame]
      rfl
  | flush ts =>
      obtain ⟨p', batches', hrun, hp', hflat⟩ := flush_sends h ts
      refine ⟨p', batches', [], ofAction_step_ok hrun, hp', ?_⟩
      rw [List.append_nil, hflat]
      exact (List.append_nil _).symm
  | heartbeat =>
      refine ⟨_, _, [], ofAction_step_ok (heartbeat_run p), h.flushed p.firstBlockTs, ?_⟩
      rw [List.append_nil, List.flatten_append, List.flatten_singleton]
      exact (List.append_nil _).symm

/-- Along a run no call raises, and the messages received are those sent and those waiting. -/
theorem batched_run {calls : List Call} (h : Batched sessionId mtu p batches waiting)
    (hcounts : NumberedFrom (batches.flatten ++ waiting).length (received calls))
    (hsend : ∀ msg ∈ received calls, Sendable mtu msg) :
    ∃ p' batches' waiting',
      machine.run p calls = (List.replicate calls.length (.ok ()), p') ∧
      Batched sessionId mtu p' batches' waiting' ∧
      batches'.flatten ++ waiting' =
        batches.flatten ++ waiting ++ (received calls).map UnknownMessage.bytes := by
  induction calls generalizing p batches waiting with
  | nil => exact ⟨p, batches, waiting, rfl, h, (List.append_nil _).symm⟩
  | cons call calls ih =>
      -- A call brings at most one message, and the others are numbered from there.
      have hcalls : received (call :: calls) = received [call] ++ received calls := by
        rw [received, received, received, ← List.filterMap_append, List.singleton_append]
      rw [hcalls] at hcounts hsend ⊢
      obtain ⟨q, batches₁, waiting₁, hstep, hq, hsame⟩ := apply_sends h call (by
        intro msg hmsg
        have hone : received [call] = [msg] := by simp [received, hmsg]
        rw [hone] at hcounts hsend
        exact ⟨hsend msg (by simp), hcounts 0 (by simp)⟩)
      have hrest : NumberedFrom (batches₁.flatten ++ waiting₁).length (received calls) := by
        rw [hsame, List.length_append, List.length_map]
        cases hmsg : call.message? with
        | none =>
            have hone : received [call] = [] := by simp [received, hmsg]
            rw [hone] at hcounts ⊢
            exact hcounts
        | some msg =>
            have hone : received [call] = [msg] := by simp [received, hmsg]
            rw [hone] at hcounts ⊢
            exact hcounts.tail
      obtain ⟨p', batches', waiting', hrun, hp', hflat⟩ := ih hq hrest fun msg hmsg =>
        hsend msg (List.mem_append_right _ hmsg)
      refine ⟨p', batches', waiting', ?_, hp', ?_⟩
      · rw [run_cons, hstep, hrun]
        rfl
      · rw [hflat, hsame, List.map_append, List.append_assoc]

/-- No packet of a run is larger than the `mtu` of the configuration. -/
theorem sent_le_mtu {cfg : MoldUdpPacerConfig} (hcfg : cfg.validate = .ok ())
    (sessionId : ShortStringField sessionIdSize) {calls : List Call}
    (hcounts : NumberedFrom 0 (received calls))
    (hsend : ∀ msg ∈ received calls, Sendable cfg.maximumTransmissionUnit msg) :
    ∀ packet ∈ (machine.run (make cfg sessionId) calls).2.sent,
      (packet.length : Int) ≤ cfg.maximumTransmissionUnit := by
  obtain ⟨p', batches, waiting, hrun, hp', -⟩ := batched_run (batched_make hcfg sessionId) hcounts hsend
  rw [hrun]
  exact hp'.sentFits

end MoldUdpPacer

end JayBeams.Itch5
