import JayBeams.Itch5.MoldUdpBatches

/-!
# The packets of the pacer

Whatever is asked of the pacer, each packet that it sends is sound: it has a header, is no larger than
the `mtu`, and its header counts the blocks that follow. A message may be refused, and a message that
comes late is refused after the packet before it was sent, so that a call that raises may move messages
from the buffer to a packet. `Carries` says that nothing else happens to the messages.

No number of a message matters here, and no message is assumed to fit: `Framed` is kept by every call.
-/

set_option autoImplicit false

namespace JayBeams.Itch5

open Bytes Machines Machines.Machine MoldUdpProtocol MoldUdpPacket

namespace MoldUdpPacket

/-- The messages that a packet carries. -/
def messagesOf (packet : List UInt8) : List (List UInt8) :=
  (blocks? (blockCount packet).toNat (packet.drop headerSize)).getD []

/-- A packet that may be sent: it has a header, fits in the `mtu` with a byte to spare when it carries
a block, and the header counts the blocks of the body. -/
structure SoundPacket (mtu : Int) (packet : List UInt8) : Prop where
  header : headerSize ≤ packet.length
  fits : (packet.length : Int) ≤ mtu
  spare : blockCount packet ≠ 0 → (packet.length : Int) < mtu
  blocks : ∃ messages, packet.drop headerSize = encodeBlocks messages ∧
    (blockCount packet).toNat = messages.length ∧ ∀ message ∈ messages, message.length < 65536

section EncodePacket

variable {sessionId : List UInt8} {batch : List (List UInt8)} (number : UInt64)

theorem messagesOf_encodePacket (h : sessionId.length = sessionIdSize) (hfits : Fits batch) :
    messagesOf (encodePacket sessionId number batch) = batch := by
  rw [messagesOf, blocks?_encodePacket number batch h hfits.1 hfits.2, Option.getD_some]

theorem toNat_blockCount_encodePacket (h : sessionId.length = sessionIdSize) (hfits : Fits batch) :
    (blockCount (encodePacket sessionId number batch)).toNat = batch.length := by
  rw [blockCount_encodePacket number batch h, UInt16.toNat_ofNat', Nat.mod_eq_of_lt hfits.1]

/-- The packet of a batch is sound when it is small enough. -/
theorem soundPacket_encodePacket (h : sessionId.length = sessionIdSize) (hfits : Fits batch)
    {mtu : Int} (hsize : ((headerSize + (encodeBlocks batch).length : Nat) : Int) ≤ mtu)
    (hspare : batch ≠ [] → ((headerSize + (encodeBlocks batch).length : Nat) : Int) < mtu) :
    SoundPacket mtu (encodePacket sessionId number batch) := by
  have hlength := length_encodePacket number batch h
  have hcount := toNat_blockCount_encodePacket number h hfits
  constructor
  case header =>
    rw [hlength]
    exact Nat.le_add_right _ _
  case fits =>
    rw [hlength]
    exact hsize
  case spare =>
    intro hsome
    rw [hlength]
    apply hspare
    intro hnil
    apply hsome
    rw [hnil] at hcount
    exact UInt16.toNat_inj.1 (by rw [hnil, hcount]; rfl)
  case blocks => exact ⟨batch, drop_encodePacket number batch h, hcount, hfits.2⟩

end EncodePacket

end MoldUdpPacket

namespace MoldUdpPacer

/-- The messages in the buffer. -/
def queued (p : MoldUdpPacer) : List (List UInt8) :=
  (blocks? p.blockCount.toNat (p.packet.read headerSize (p.packetSize - headerSize))).getD []

/-- The messages in the packets sent and then those in the buffer. -/
def carried (p : MoldUdpPacer) : List (List UInt8) := p.sent.flatMap messagesOf ++ queued p

/-- The pacer in a memory where other bytes lie behind its buffer. -/
def beside (p : MoldUdpPacer) (outside : Memory) : MoldUdpPacer :=
  { p with packet := fun i => if i < rawbufsize then p.packet i else outside i }

/-- The buffer holds the blocks of the waiting messages with room to send them, the bytes behind it are
as they were, and the packets sent are sound. -/
structure Framed (sessionId : List UInt8) (mtu : Int) (outside : Memory) (p : MoldUdpPacer)
    (waiting : List (List UInt8)) : Prop extends HoldsBlocks sessionId p waiting where
  mtu_eq : p.mtu = mtu
  header_le : 20 ≤ mtu
  mtu_lt : mtu < 65535
  room : waiting ≠ [] → (p.packetSize : Int) < mtu
  untouched : ∀ i, rawbufsize ≤ i → p.packet i = outside i
  sound : ∀ packet ∈ p.sent, SoundPacket mtu packet

/-- The packets sent remain, and the messages carried are those from before and then some more. -/
structure Carries (p q : MoldUdpPacer) (msgs : List (List UInt8)) : Prop where
  sent : p.sent <+: q.sent
  carried : carried q = carried p ++ msgs

theorem Carries.refl (p : MoldUdpPacer) : Carries p p [] :=
  ⟨List.prefix_refl _, (List.append_nil _).symm⟩

theorem Carries.setLastSend (p : MoldUdpPacer) (ts : Int) : Carries p { p with lastSend := ts } [] :=
  ⟨List.prefix_refl _, (List.append_nil _).symm⟩

theorem Carries.setSlept (p : MoldUdpPacer) (slept : List Int) :
    Carries p { p with slept := slept } [] :=
  ⟨List.prefix_refl _, (List.append_nil _).symm⟩

theorem Carries.trans {p q r : MoldUdpPacer} {msgs : List (List UInt8)} (h : Carries p q [])
    (h' : Carries q r msgs) : Carries p r msgs := by
  refine ⟨h.sent.trans h'.sent, ?_⟩
  rw [h'.carried, h.carried, List.append_nil]

namespace Framed

variable {sessionId : List UInt8} {mtu : Int} {outside : Memory} {p : MoldUdpPacer}
  {waiting : List (List UInt8)}

theorem length_session (h : Framed sessionId mtu outside p waiting) :
    sessionId.length = sessionIdSize := by
  rw [← h.session, Memory.length_read]

/-- The messages in the buffer are the waiting ones. -/
theorem queued_eq (h : Framed sessionId mtu outside p waiting) : queued p = waiting := by
  have hread := blocks?_encodeBlocks h.fits.2 []
  rw [List.append_nil] at hread
  rw [queued, h.toNat_blockCount, h.size, Nat.add_sub_cancel_left, h.body, hread, Option.getD_some]

theorem carried_eq (h : Framed sessionId mtu outside p waiting) :
    carried p = p.sent.flatMap messagesOf ++ waiting := by
  rw [carried, h.queued_eq]

theorem size_le (h : Framed sessionId mtu outside p waiting) : (p.packetSize : Int) ≤ mtu := by
  by_cases hnil : waiting = []
  · have hsize := h.size
    have hheader : headerSize = 20 := rfl
    have hmtu := h.header_le
    rw [hnil] at hsize
    change p.packetSize = headerSize + 0 at hsize
    omega
  · exact Int.le_of_lt (h.room hnil)

theorem setLastSend (h : Framed sessionId mtu outside p waiting) (ts : Int) :
    Framed sessionId mtu outside { p with lastSend := ts } waiting where
  toHoldsBlocks := h.toHoldsBlocks.setLastSend ts
  mtu_eq := h.mtu_eq
  header_le := h.header_le
  mtu_lt := h.mtu_lt
  room := h.room
  untouched := h.untouched
  sound := h.sound

theorem setSlept (h : Framed sessionId mtu outside p waiting) (slept : List Int) :
    Framed sessionId mtu outside { p with slept := slept } waiting where
  toHoldsBlocks := h.toHoldsBlocks.setSlept slept
  mtu_eq := h.mtu_eq
  header_le := h.header_le
  mtu_lt := h.mtu_lt
  room := h.room
  untouched := h.untouched
  sound := h.sound

theorem started (h : Framed sessionId mtu outside p waiting) (msg : UnknownMessage) (ts : Int) :
    Framed sessionId mtu outside (p.started msg ts) waiting ∧ Carries p (p.started msg ts) [] := by
  rw [MoldUdpPacer.started]
  split_ifs
  · exact ⟨h.setLastSend ts, Carries.setLastSend p ts⟩
  · exact ⟨h, Carries.refl p⟩

/-- Sending the packet. -/
theorem flushed (h : Framed sessionId mtu outside p waiting) (ts : Int) :
    Framed sessionId mtu outside (p.flushed ts) [] ∧ Carries p (p.flushed ts) [] := by
  have hread := h.read_headed
  have hlength := h.length_session
  have hsize := h.size
  have hframed : Framed sessionId mtu outside (p.flushed ts) [] := by
    constructor
    case toHoldsBlocks => exact h.toHoldsBlocks.flushed ts
    case mtu_eq => exact h.mtu_eq
    case header_le => exact h.header_le
    case mtu_lt => exact h.mtu_lt
    case room => exact fun hne => absurd rfl hne
    case untouched =>
      intro i hi
      rw [← h.untouched i hi]
      -- the fields of the header lie in the first 20 bytes
      have hbuffer : rawbufsize = 65536 := rfl
      change p.headed i = p.packet i
      rw [headed, Memory.write_of_ge, Memory.write_of_ge]
      · rw [length_bytes64, sequenceNumberOffset, sessionIdSize]
        omega
      · rw [length_bytes16, blockCountOffset, sequenceNumberOffset, sessionIdSize]
        omega
    case sound =>
      intro packet hpacket
      rcases List.mem_append.1 hpacket with hpacket | hpacket
      · exact h.sound packet hpacket
      · rw [List.mem_singleton.1 hpacket, hread]
        apply soundPacket_encodePacket _ hlength h.fits
        · rw [← hsize]
          exact h.size_le
        · rw [← hsize]
          exact h.room
  refine ⟨hframed, List.prefix_append _ _, ?_⟩
  rw [hframed.carried_eq, h.carried_eq, List.append_nil, List.append_nil]
  change (p.sent ++ [p.headed.read 0 p.packetSize]).flatMap messagesOf = _
  rw [hread, List.flatMap_append, List.flatMap_singleton, messagesOf_encodePacket _ hlength h.fits]

/-- A message that comes in. -/
theorem appended (h : Framed sessionId mtu outside p waiting) {msg : UnknownMessage} (ts : Int)
    (hroom : ((p.packetSize + (msg.len + 2) : Nat) : Int) < mtu) (hfew : waiting.length + 1 < 65536) :
    Framed sessionId mtu outside (p.appended msg ts) (waiting ++ [msg.bytes]) ∧
      Carries p (p.appended msg ts) [msg.bytes] := by
  have hlt := h.mtu_lt
  have hbuffer : rawbufsize = 65536 := rfl
  have hsize : p.packetSize + (msg.len + 2) ≤ rawbufsize := by omega
  have hframed : Framed sessionId mtu outside (p.appended msg ts) (waiting ++ [msg.bytes]) := by
    constructor
    case toHoldsBlocks => exact h.toHoldsBlocks.appended ts hsize (by omega) hfew
    case mtu_eq => exact h.mtu_eq
    case header_le => exact h.header_le
    case mtu_lt => exact hlt
    case room => exact fun _ => hroom
    case untouched =>
      intro i hi
      rw [HoldsBlocks.packet_appended ts hsize, Memory.write_of_ge]
      · exact h.untouched i hi
      · rw [length_encodeBlock, UnknownMessage.length_bytes]
        omega
    case sound => exact h.sound
  refine ⟨hframed, List.prefix_refl _, ?_⟩
  rw [hframed.carried_eq, h.carried_eq, List.append_assoc]
  rfl

/-- Sending the packet, if anything waits. -/
theorem flush (h : Framed sessionId mtu outside p waiting) (ts : Int) :
    ∃ q, (MoldUdpPacer.flush ts).run p = .ok () q ∧ Framed sessionId mtu outside q [] ∧
      Carries p q [] := by
  rw [flush_run]
  split_ifs with hempty
  · have hnil := h.blockCount_eq_zero_iff.1 hempty
    subst hnil
    exact ⟨p, rfl, h, Carries.refl p⟩
  · exact ⟨p.flushed ts, rfl, h.flushed ts⟩

/-- A message that fits in a packet is taken, after the packet in the buffer was sent when it is too
full; any other is refused. -/
theorem coalesce_cases (h : Framed sessionId mtu outside p waiting) (msg : UnknownMessage) (ts : Int) :
    (∃ r waiting', (r = p ∧ waiting' = waiting ∨ r = p.flushed ts ∧ waiting ≠ [] ∧ waiting' = []) ∧
      (MoldUdpPacer.coalesce msg ts).run p = .ok () (r.appended msg ts) ∧
      Framed sessionId mtu outside r waiting' ∧
      Framed sessionId mtu outside (r.appended msg ts) (waiting' ++ [msg.bytes]) ∧
      Carries p (r.appended msg ts) [msg.bytes]) ∨
    ∃ e, (MoldUdpPacer.coalesce msg ts).run p = .error e p := by
  have hheader : ((headerSize : Nat) : Int) = 20 := rfl
  have hle := h.header_le
  have hlt := h.mtu_lt
  have hlimit : toSizeT (p.mtu - headerSize) = (mtu - 20).toNat := by
    rw [h.mtu_eq, hheader]
    exact HoldsBlocks.toSizeT_of_nonneg (by omega) (by omega)
  by_cases hlen : msg.len + 2 < (mtu - 20).toNat
  · left
    have hsend : (msg.len : Int) + 2 < p.mtu - headerSize := by
      rw [h.mtu_eq]
      omega
    -- The message fits, perhaps after the packet was sent to make room.
    obtain ⟨waiting', -, hroom, hfew, hcases⟩ := h.withRoom_room (h.mtu_eq ▸ hlt) hsend ts
    rw [h.mtu_eq] at hroom
    have hfits : msg.len + 2 < toSizeT (p.mtu - headerSize) := by
      rw [hlimit]
      exact hlen
    have hbuffer : (p.withRoom msg ts).packetSize + 2 ≤ rawbufsize := by
      rw [rawbufsize]
      omega
    have hrun := coalesce_run ts (by omega) hfits hbuffer
    have hwith : Framed sessionId mtu outside (p.withRoom msg ts) waiting' ∧
        Carries p (p.withRoom msg ts) [] := by
      rcases hcases with ⟨hsame, rfl⟩ | ⟨hsent, -, rfl⟩
      · rw [hsame]
        exact ⟨h, Carries.refl p⟩
      · rw [hsent]
        exact h.flushed ts
    obtain ⟨hframed, hcarries⟩ := hwith.1.appended ts hroom hfew
    exact ⟨_, waiting', hcases, hrun, hwith.1, hframed, hwith.2.trans hcarries⟩
  · right
    apply coalesce_refused
    intro _
    rw [hlimit]
    exact hlen

/-- A message is taken, or the call raises and the messages are those from before. -/
theorem handleMessage (h : Framed sessionId mtu outside p waiting) (msg : UnknownMessage) :
    (∃ q waiting', (MoldUdpPacer.handleMessage msg).run p = .ok () q ∧
      Framed sessionId mtu outside q waiting' ∧ Carries p q [msg.bytes]) ∨
    ∃ e q waiting', (MoldUdpPacer.handleMessage msg).run p = .error e q ∧
      Framed sessionId mtu outside q waiting' ∧ Carries p q [] := by
  obtain ⟨header, hheader⟩ := msg.decodeHeader_unchecked
  obtain ⟨hstarted, hcarries⟩ := h.started msg header.timestamp
  rw [handleMessage_run p hheader]
  split_ifs
  · rcases hstarted.coalesce_cases msg header.timestamp with
      ⟨r, waiting', -, hrun, -, hq, hmore⟩ | ⟨e, hrun⟩
    · exact Or.inl ⟨_, _, hrun, hq, hcarries.trans hmore⟩
    · exact Or.inr ⟨e, _, _, hrun, hstarted, hcarries⟩
  · -- the waiting messages are sent also when the message is refused
    obtain ⟨r, hflush, hr, hsent⟩ := hstarted.flush header.timestamp
    have hslept := hr.setSlept
      (r.slept ++ [header.timestamp - (p.started msg header.timestamp).lastSend])
    have hbefore := (hcarries.trans hsent).trans (Carries.setSlept r
      (r.slept ++ [header.timestamp - (p.started msg header.timestamp).lastSend]))
    simp only [EStateM.run_bind, hflush, EStateM.run_modify]
    rcases hslept.coalesce_cases msg header.timestamp with
      ⟨s, waiting', -, hrun, -, hq, hmore⟩ | ⟨e, hrun⟩
    · exact Or.inl ⟨_, _, hrun, hq, hbefore.trans hmore⟩
    · exact Or.inr ⟨e, _, _, hrun, hslept, hbefore⟩

/-- A call is handled, or it raises and the messages are those from before. -/
theorem step (h : Framed sessionId mtu outside p waiting) (call : Call) :
    ∃ o q waiting', machine.step p call = (o, q) ∧ Framed sessionId mtu outside q waiting' ∧
      (Carries p q [] ∨ o = .ok () ∧ ∃ msg, call = .handleMessage msg ∧ Carries p q [msg.bytes]) := by
  cases call with
  | handleMessage msg =>
      rcases h.handleMessage msg with ⟨q, waiting', hrun, hq, hmore⟩ | ⟨e, q, waiting', hrun, hq, hsame⟩
      · exact ⟨_, q, waiting', ofAction_step_ok hrun, hq, Or.inr ⟨rfl, msg, rfl, hmore⟩⟩
      · exact ⟨_, q, waiting', ofAction_step_error hrun, hq, Or.inl hsame⟩
  | flush ts =>
      obtain ⟨q, hrun, hq, hsame⟩ := h.flush ts
      exact ⟨_, q, [], ofAction_step_ok hrun, hq, Or.inl hsame⟩
  | heartbeat =>
      obtain ⟨hq, hsame⟩ := h.flushed p.firstBlockTs
      exact ⟨_, _, [], ofAction_step_ok (heartbeat_run p), hq, Or.inl hsame⟩

/-- The buffer is framed along every run. -/
theorem run (h : Framed sessionId mtu outside p waiting) (calls : List Call) :
    ∃ waiting', Framed sessionId mtu outside (machine.run p calls).2 waiting' := by
  have hstep : ∀ (q : MoldUdpPacer) (call : Call),
      (∃ waiting', Framed sessionId mtu outside q waiting') → True →
      ∃ waiting', Framed sessionId mtu outside (machine.step q call).2 waiting' := by
    rintro q call ⟨waiting', hq⟩ -
    obtain ⟨o, r, waiting'', hrun, hr, -⟩ := hq.step call
    rw [hrun]
    exact ⟨waiting'', hr⟩
  exact run_invariant hstep (along_of_forall machine (fun _ _ _ => trivial) p) ⟨waiting, h⟩

end Framed

theorem framed_make {cfg : MoldUdpPacerConfig} (hcfg : cfg.validate = .ok ())
    (sessionId : ShortStringField sessionIdSize) (outside : Memory) :
    Framed (sessionId.buffer.read 0 sessionIdSize) cfg.maximumTransmissionUnit outside
      ((make cfg sessionId).beside outside) [] := by
  obtain ⟨hfits, hsession, -, hsize, hcount⟩ := holdsBlocks_make cfg sessionId
  obtain ⟨⟨hmtu, hlt⟩, -⟩ := cfg.validate_ok_iff.1 hcfg
  constructor
  case toHoldsBlocks =>
    refine ⟨hfits, ?_, rfl, hsize, hcount⟩
    rw [← hsession]
    apply Memory.read_congr
    intro i hi
    -- The session id lies in the buffer, where the memory beside it makes no difference.
    have hbuffer : 0 + i < rawbufsize := by
      rw [sessionIdSize] at hi
      rw [rawbufsize]
      omega
    exact if_pos hbuffer
  case mtu_eq => rfl
  case header_le => exact hmtu
  case mtu_lt => exact hlt
  case room => exact fun hne => absurd rfl hne
  case untouched => exact fun i hi => if_neg (Nat.not_lt.2 hi)
  case sound => simp [beside, make]

/-- Whatever is asked of a pacer, the packets that it sent are sound, the bytes behind its buffer are as
they were, and a call that raises changes no message, neither in the packets sent nor in the buffer. -/
theorem sound_packets {cfg : MoldUdpPacerConfig} (hcfg : cfg.validate = .ok ())
    (sessionId : ShortStringField sessionIdSize) (outside : Memory) (calls : List Call) :
    let p := (machine.run ((make cfg sessionId).beside outside) calls).2
    (∀ packet ∈ p.sent, SoundPacket cfg.maximumTransmissionUnit packet) ∧
      (∀ i, rawbufsize ≤ i → p.packet i = outside i) ∧
      ∀ call e q, machine.step p call = (.error e, q) → Carries p q [] := by
  obtain ⟨waiting, hframed⟩ := (framed_make hcfg sessionId outside).run calls
  refine ⟨hframed.sound, hframed.untouched, fun call e q hstep => ?_⟩
  obtain ⟨o, r, waiting', hrun, -, hcarries⟩ := hframed.step call
  rw [hstep, Prod.mk.injEq] at hrun
  obtain ⟨rfl, rfl⟩ := hrun
  rcases hcarries with hsame | ⟨hok, -⟩
  · exact hsame
  · cases hok

/-- Zeros lie behind the buffer of a pacer in the model. -/
theorem beside_zeros (cfg : MoldUdpPacerConfig) (sessionId : ShortStringField sessionIdSize) :
    (make cfg sessionId).beside (fun _ => 0) = make cfg sessionId := by
  have hpacket : (fun i => if i < rawbufsize then (make cfg sessionId).packet i else 0) =
      (make cfg sessionId).packet := by
    funext i
    split_ifs with hi
    · rfl
    · have hbuffer : rawbufsize = 65536 := rfl
      change 0 = Memory.write (fun _ => 0) 0 (sessionId.buffer.read 0 sessionIdSize) i
      rw [Memory.write_of_ge]
      rw [Memory.length_read, sessionIdSize]
      omega
  rw [beside, hpacket]

/-- A message, and one too large for the default configuration. -/
theorem sound_packets_oversized :
    MoldUdpPacerConfig.defaults.validate = .ok () ∧
      ∀ packet ∈ (machine.run (make .defaults .empty)
        [.handleMessage ⟨0, 0, 11, fun _ => 0⟩, .handleMessage ⟨1, 0, 600, fun _ => 0⟩,
          .heartbeat]).2.sent, SoundPacket 508 packet := by
  have hsound := sound_packets MoldUdpPacerConfig.validate_defaults .empty (fun _ => 0)
    [.handleMessage ⟨0, 0, 11, fun _ => 0⟩, .handleMessage ⟨1, 0, 600, fun _ => 0⟩, .heartbeat]
  rw [beside_zeros] at hsound
  exact ⟨MoldUdpPacerConfig.validate_defaults, hsound.1⟩

end MoldUdpPacer

end JayBeams.Itch5
