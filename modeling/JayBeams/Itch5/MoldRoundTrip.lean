import JayBeams.Itch5.MoldUdpBatches
import JayBeams.Itch5.MoldUdpChannel

/-!
# From the pacer to the channel

The packets that the pacer sends are those of batches of messages. A channel that receives them in
order hands the messages of each batch to its handler, and expects the number of the first message of
the next batch: it is in step with the stream (`InStep`).

The pacer keeps that number in 32 bits. After 2^32 messages it has none left, and a heartbeat without
messages then carries 0 where the channel expects 2^32 (`heartbeat_wraps`). Everything before is as it
should be (`round_trip`).
-/

set_option autoImplicit false

namespace JayBeams.Itch5

open Bytes Machines Machines.Machine MoldUdpProtocol MoldUdpPacket

namespace MoldUdpChannel

/-- The channel has received `k` messages of a stream, and expects the next one. When 32 bits are not
enough for its number, the channel may expect the number that is left of it. -/
structure InStep (k : Nat) (ch : MoldUdpChannel) : Prop where
  delivered : ch.calls.length = k
  expected : k < 4294967296 → ch.expectedSequenceNumber.toNat = k
  wrapped : ch.expectedSequenceNumber.toNat % 4294967296 = k % 4294967296

/-- The number in the header of a packet is the one that the channel expects modulo 2^32, and exactly
that one while fewer than 2^32 messages were received. -/
def NumberExpected (ch : MoldUdpChannel) (r : Reception) : Prop :=
  (ch.calls.length < 4294967296 → sequenceNumber r.bytes = ch.expectedSequenceNumber) ∧
    (sequenceNumber r.bytes).toNat = ch.expectedSequenceNumber.toNat % 4294967296

theorem inStep_make (buffer : Memory) : InStep 0 (make buffer) := ⟨rfl, fun _ => rfl, rfl⟩

section Batch

variable {sessionId : List UInt8} {k : Nat} {batch : List (List UInt8)} {ch : MoldUdpChannel}
  {r : Reception}

theorem toNat_number (k : Nat) : (UInt32.ofNat k).toUInt64.toNat = k % 4294967296 := by
  rw [UInt32.toNat_toUInt64, UInt32.toNat_ofNat']

theorem wellFormed_encodePacket (hsession : sessionId.length = sessionIdSize) (hfits : Fits batch)
    (number : UInt64) : WellFormed (encodePacket sessionId number batch) := by
  constructor
  · rw [length_encodePacket number batch hsession]
    exact Nat.le_add_right _ _
  · rw [blocks?_encodePacket number batch hsession hfits.1 hfits.2]
    rfl

variable (ch) in
/-- The number that the channel expects after a packet. -/
theorem expected_after (hsession : sessionId.length = sessionIdSize) (hfits : Fits batch)
    (hec : r.ec = 0)
    (hr : r.bytes = encodePacket sessionId (UInt32.ofNat k).toUInt64 batch) :
    (ch.after r).expectedSequenceNumber.toNat = k % 4294967296 + batch.length := by
  obtain ⟨recvTs, ec, packet⟩ := r
  simp only at hec hr
  subst hec hr
  have hwf := wellFormed_encodePacket hsession hfits (UInt32.ofNat k).toUInt64
  have hfew := hfits.1
  rw [after_wellFormed ch recvTs hwf, sequenceNumber_encodePacket _ batch hsession,
    blockCount_encodePacket _ batch hsession, UInt64.toNat_add, toNat_number, UInt64.toNat_ofNat',
    UInt16.toNat_ofNat']
  omega

/-- The next packet of a stream: its number is the one expected, its messages are handed to the
handler, and the channel stays in step. -/
theorem receive_batch (hsession : sessionId.length = sessionIdSize) (hfits : Fits batch)
    (h : InStep k ch) (hec : r.ec = 0)
    (hr : r.bytes = encodePacket sessionId (UInt32.ofNat k).toUInt64 batch) :
    NumberExpected ch r ∧ InStep (k + batch.length) (ch.after r) ∧
      (ch.after r).calls.map HandlerCall.message = ch.calls.map HandlerCall.message ++ batch := by
  have hnext := expected_after ch hsession hfits hec hr
  obtain ⟨recvTs, ec, packet⟩ := r
  simp only at hec hr
  subst hec hr
  have hwf := wellFormed_encodePacket hsession hfits (UInt32.ofNat k).toUInt64
  have hnumber := sequenceNumber_encodePacket (UInt32.ofNat k).toUInt64 batch hsession
  have hmessages := packetCalls_messages ch recvTs hwf.1
    (blocks?_encodePacket (UInt32.ofNat k).toUInt64 batch hsession hfits.1 hfits.2)
  have hcalls := ch.calls_after recvTs (encodePacket sessionId (UInt32.ofNat k).toUInt64 batch)
  refine ⟨⟨fun hfew => ?_, ?_⟩, ⟨?_, fun hfew => ?_, ?_⟩, ?_⟩
  · rw [h.delivered] at hfew
    rw [hnumber, ← UInt64.toNat_inj, toNat_number, h.expected hfew, Nat.mod_eq_of_lt hfew]
  · rw [hnumber, toNat_number, h.wrapped]
  · rw [hcalls, List.length_append, h.delivered]
    exact congrArg (k + ·) ((List.length_map _).symm.trans (congrArg List.length hmessages))
  · rw [hnext]
    omega
  · rw [hnext]
    omega
  · rw [hcalls, List.map_append, hmessages]

end Batch

/-- A channel in step receives the packets of batches: each has the number expected, and the handler
is given the messages of the batches, in order. -/
theorem receive_batches {sessionId : List UInt8} (hsession : sessionId.length = sessionIdSize)
    {k : Nat} {batches : List (List (List UInt8))} (hfits : ∀ batch ∈ batches, Fits batch)
    {ch : MoldUdpChannel} (h : InStep k ch)
    {rs : List Reception} (hec : ∀ r ∈ rs, r.ec = 0)
    (hrs : rs.map Reception.bytes = packetsOf sessionId k batches) :
    machine.Along NumberExpected ch rs ∧
      InStep (k + batches.flatten.length) (machine.run ch rs).2 ∧
      (machine.run ch rs).2.calls.map HandlerCall.message =
        ch.calls.map HandlerCall.message ++ batches.flatten := by
  induction batches generalizing k ch rs with
  | nil =>
      rw [packetsOf, List.map_eq_nil_iff] at hrs
      subst hrs
      exact ⟨trivial, h, (List.append_nil _).symm⟩
  | cons batch batches ih =>
      rw [packetsOf] at hrs
      obtain ⟨r, rest, rfl, hr, hrest⟩ := List.map_eq_cons_iff.1 hrs
      obtain ⟨hnumber, hstep, hcalls⟩ := receive_batch hsession
        (hfits batch List.mem_cons_self) h (hec r List.mem_cons_self) hr
      obtain ⟨halong, hend, hmessages⟩ := ih
        (fun b hb => hfits b (List.mem_cons_of_mem batch hb)) hstep
        (fun x hx => hec x (List.mem_cons_of_mem r hx)) hrest
      refine ⟨⟨hnumber, halong⟩, ?_, ?_⟩
      · rw [List.flatten_cons, List.length_append, ← Nat.add_assoc]
        exact hend
      · rw [List.flatten_cons, ← List.append_assoc, ← hcalls]
        exact hmessages

/-- When 2^32 messages were received, a packet without messages has the number 0 and the channel
expects 2^32. -/
theorem not_expected_of_full {sessionId : List UInt8} (hsession : sessionId.length = sessionIdSize)
    {batches : List (List (List UInt8))} (hfits : ∀ batch ∈ batches, Fits batch)
    {last : List (List UInt8)} (hlast : Fits last) (hne : last ≠ [])
    (hfull : (batches.flatten ++ last).length = 4294967296) (buffer : Memory)
    {rs : List Reception} (hec : ∀ r ∈ rs, r.ec = 0)
    (hrs : rs.map Reception.bytes = packetsOf sessionId 0 (batches ++ [last] ++ [[]])) :
    ¬ machine.Along (fun ch r => sequenceNumber r.bytes = ch.expectedSequenceNumber)
      (make buffer) rs := by
  rw [packetsOf_append, packetsOf_append, List.map_eq_append_iff] at hrs
  obtain ⟨rs, empties, rfl, hrs, hempties⟩ := hrs
  obtain ⟨before, lasts, rfl, hbefore, hlasts⟩ := List.map_eq_append_iff.1 hrs
  obtain ⟨r, rfl, hr⟩ := List.map_eq_singleton_iff.1 hlasts
  obtain ⟨r', rfl, hr'⟩ := List.map_eq_singleton_iff.1 hempties
  obtain ⟨-, hstep, -⟩ := receive_batches hsession hfits (inStep_make buffer)
    (fun x hx => hec x (by simp [hx])) hbefore
  have hexpected := expected_after (machine.run (make buffer) before).2 hsession hlast
    (hec r (by simp)) hr
  have hnumber : sequenceNumber r'.bytes = 0 := by
    rw [hr', sequenceNumber_encodePacket _ _ hsession, Nat.zero_add, List.flatten_append,
      List.flatten_singleton, hfull]
    rfl
  rw [List.length_append] at hfull
  have hpos : 0 < last.length := List.length_pos_iff.2 hne
  intro halong
  obtain ⟨-, hlast'⟩ := (along_append _ _ _ _ _).1 halong
  have hzero := hnumber.symm.trans hlast'.1
  rw [run_append] at hzero
  have hzero : ((machine.run (make buffer) before).2.after r).expectedSequenceNumber = 0 := hzero.symm
  rw [hzero] at hexpected
  rw [Nat.zero_add, Nat.mod_eq_of_lt (by omega)] at hexpected
  change 0 = _ at hexpected
  omega

end MoldUdpChannel

namespace MoldUdpPacer

open MoldUdpChannel

/-- The packets sent in a run that ends with a flush, received in order by a fresh channel, bring each
message to the handler once, in order and unchanged. Their numbers are those that the channel expects,
but for the 32 bits of the number that the pacer keeps. -/
theorem round_trip {cfg : MoldUdpPacerConfig} (hcfg : cfg.validate = .ok ())
    (sessionId : ShortStringField sessionIdSize) {calls : List Call} (ts : Int)
    (hcounts : NumberedFrom 0 (received calls))
    (hsend : ∀ msg ∈ received calls, Sendable cfg.maximumTransmissionUnit msg)
    (buffer : Memory) {rs : List Reception} (hec : ∀ r ∈ rs, r.ec = 0)
    (hrs : rs.map Reception.bytes =
      (machine.run (make cfg sessionId) (calls ++ [.flush ts])).2.sent) :
    (MoldUdpChannel.machine.run (MoldUdpChannel.make buffer) rs).2.calls.map HandlerCall.message =
        (received calls).map UnknownMessage.bytes ∧
      MoldUdpChannel.machine.Along NumberExpected (MoldUdpChannel.make buffer) rs := by
  obtain ⟨p, batches, waiting, hrun, hp, hflat⟩ :=
    batched_run (batched_make hcfg sessionId) hcounts hsend
  obtain ⟨q, sentBatches, hflush, hq, hall⟩ := flush_sends hp ts
  have hend : (machine.run (make cfg sessionId) (calls ++ [.flush ts])).2 = q := by
    have hstep : machine.step p (.flush ts) = (.ok (), q) := ofAction_step_ok hflush
    rw [run_append, hrun, run_cons, hstep]
    rfl
  rw [hend, hq.sent] at hrs
  obtain ⟨halong, -, hmessages⟩ := receive_batches hq.length_session hq.batchFits
    (inStep_make buffer) hec hrs
  refine ⟨?_, halong⟩
  rw [hmessages, hall, hflat]
  rfl

/-! ## Short messages -/

/-- A message of 11 bytes. -/
def shortMessage (i : Nat) : UnknownMessage := ⟨UInt32.ofNat i, 0, 11, fun _ => 0⟩

/-- The first `n` messages of 11 bytes. -/
def shortMessages (n : Nat) : List UnknownMessage := (List.range n).map shortMessage

theorem received_map (msgs : List UnknownMessage) : received (msgs.map .handleMessage) = msgs := by
  induction msgs with
  | nil => rfl
  | cons msg msgs ih => exact congrArg (msg :: ·) ih

theorem length_shortMessages (n : Nat) : (shortMessages n).length = n := by
  rw [shortMessages, List.length_map, List.length_range]

theorem numberedFrom_shortMessages {n : Nat} (h : n ≤ 4294967296) :
    NumberedFrom 0 (shortMessages n) := by
  intro i hi
  rw [length_shortMessages] at hi
  simp only [shortMessages, List.getElem_map, List.getElem_range, shortMessage, Nat.zero_add,
    UInt32.toNat_ofNat']
  exact Nat.mod_eq_of_lt (by omega)

theorem sendable_shortMessage (i : Nat) : Sendable 508 (shortMessage i) := by
  constructor
  · exact Nat.le_refl 11
  · change ((11 : Nat) : Int) + 2 < 508 - ((headerSize : Nat) : Int)
    decide

theorem sendable_shortMessages (n : Nat) : ∀ msg ∈ shortMessages n, Sendable 508 msg := by
  intro msg hmsg
  obtain ⟨i, -, rfl⟩ := List.mem_map.1 hmsg
  exact sendable_shortMessage i

/-- The receptions of packets, without errors. -/
def receptionsOf (packets : List (List UInt8)) : List Reception := packets.map fun d => ⟨0, 0, d⟩

theorem map_bytes_receptionsOf (packets : List (List UInt8)) :
    (receptionsOf packets).map Reception.bytes = packets := by
  rw [receptionsOf, List.map_map]
  exact List.map_id packets

theorem ec_receptionsOf (packets : List (List UInt8)) : ∀ r ∈ receptionsOf packets, r.ec = 0 := by
  intro r hr
  obtain ⟨d, -, rfl⟩ := List.mem_map.1 hr
  rfl

/-- Two messages in one packet, sent by a heartbeat, with the default configuration. -/
theorem round_trip_two_messages :
    (MoldUdpChannel.machine.run (MoldUdpChannel.make fun _ => 0)
      (receptionsOf (machine.run (make .defaults .empty)
        ((shortMessages 2).map .handleMessage ++ [.heartbeat] ++ [.flush 0])).2.sent)).2.calls.map
      HandlerCall.message = (shortMessages 2).map UnknownMessage.bytes := by
  have hreceived : received ((shortMessages 2).map .handleMessage ++ [.heartbeat]) =
      shortMessages 2 := rfl
  have hcounts := numberedFrom_shortMessages (n := 2) (by decide)
  have hsend := sendable_shortMessages 2
  rw [← hreceived] at hcounts hsend
  have htrip := (round_trip MoldUdpPacerConfig.validate_defaults .empty 0 hcounts hsend (fun _ => 0)
    (ec_receptionsOf _) (map_bytes_receptionsOf _)).1
  rwa [hreceived] at htrip

/-- The calls that bring messages and two heartbeats. -/
def withHeartbeats (msgs : List UnknownMessage) : List Call :=
  msgs.map .handleMessage ++ [.heartbeat, .heartbeat]

theorem received_withHeartbeats (msgs : List UnknownMessage) :
    received (withHeartbeats msgs) = msgs := by
  have happend : received (withHeartbeats msgs) = received (msgs.map .handleMessage) ++ [] :=
    List.filterMap_append
  rw [happend, received_map, List.append_nil]

/-- The first of two heartbeats sends the waiting messages, and the second an empty packet. -/
theorem sent_withHeartbeats {cfg : MoldUdpPacerConfig} (hcfg : cfg.validate = .ok ())
    (sessionId : ShortStringField sessionIdSize) {msgs : List UnknownMessage} {msg : UnknownMessage}
    (hcounts : NumberedFrom 0 (msgs ++ [msg]))
    (hsend : ∀ m ∈ msgs ++ [msg], Sendable cfg.maximumTransmissionUnit m) (ts : Int) :
    ∃ batches waiting,
      (batches.flatten ++ (waiting ++ [msg.bytes])).length = (msgs ++ [msg]).length ∧
      (∀ batch ∈ batches, Fits batch) ∧ Fits (waiting ++ [msg.bytes]) ∧
      (machine.run (make cfg sessionId) (withHeartbeats (msgs ++ [msg]) ++ [.flush ts])).2.sent =
        packetsOf (sessionId.buffer.read 0 sessionIdSize) 0
          (batches ++ [waiting ++ [msg.bytes]] ++ [[]]) := by
  have hcount : msg.count = UInt32.ofNat msgs.length := by
    have hlast := hcounts msgs.length (by simp)
    rw [List.getElem_append_right (Nat.le_refl _)] at hlast
    simp only [Nat.sub_self, List.getElem_singleton, Nat.zero_add] at hlast
    rw [← hlast, UInt32.ofNat_toNat]
  have hcounts' : NumberedFrom 0 (received (msgs.map .handleMessage)) := by
    rw [received_map]
    intro i hi
    have hmsg := hcounts i (by rw [List.length_append]; omega)
    rwa [List.getElem_append_left hi] at hmsg
  have hsend' : ∀ m ∈ received (msgs.map .handleMessage), Sendable cfg.maximumTransmissionUnit m := by
    rw [received_map]
    exact fun m hm => hsend m (List.mem_append_left _ hm)
  obtain ⟨p, batches, waiting, hrun, hp, hflat⟩ :=
    batched_run (batched_make hcfg sessionId) hcounts' hsend'
  rw [received_map, List.flatten_nil, List.nil_append, List.nil_append] at hflat
  obtain ⟨q, batches', waiting', hq, hq', hsame⟩ := handleMessage_sends hp (hsend msg (by simp))
    (by rw [hflat, hcount, List.length_map])
  refine ⟨batches', waiting', ?_, hq'.batchFits, hq'.waitingFits, ?_⟩
  · rw [← List.append_assoc, List.length_append, hsame, hflat, List.length_append, List.length_map]
    rfl
  · have hfirst := hq'.flushed q.firstBlockTs
    have hsecond := hfirst.flushed (q.flushed q.firstBlockTs).firstBlockTs
    rw [← hsecond.sent]
    have hcalls : withHeartbeats (msgs ++ [msg]) ++ [.flush ts] =
        msgs.map Call.handleMessage ++ [.handleMessage msg, .heartbeat, .heartbeat, .flush ts] := by
      simp [withHeartbeats]
    rw [hcalls, run_append, hrun]
    have hstep : machine.step p (.handleMessage msg) = (.ok (), q) := ofAction_step_ok hq
    have hbeat : ∀ p : MoldUdpPacer,
        machine.step p .heartbeat = (.ok (), p.flushed p.firstBlockTs) := fun p =>
      ofAction_step_ok (heartbeat_run p)
    have hflush : ∀ p : MoldUdpPacer, p.blockCount = 0 →
        machine.step p (.flush ts) = (.ok (), p) := fun p h0 =>
      ofAction_step_ok (by rw [apply, flush_run, if_pos h0])
    simp only [run_cons, run_nil, hstep, hbeat]
    rw [hflush _ rfl]

/-- After all messages that 32 bits can number, a heartbeat without messages has the number 0 and the
channel expects 2^32. -/
theorem heartbeat_wraps :
    MoldUdpPacerConfig.defaults.validate = .ok () ∧
    NumberedFrom 0 (received (withHeartbeats (shortMessages 4294967296))) ∧
    (∀ msg ∈ received (withHeartbeats (shortMessages 4294967296)), Sendable 508 msg) ∧
    ¬ MoldUdpChannel.machine.Along
      (fun ch r => sequenceNumber r.bytes = ch.expectedSequenceNumber) (MoldUdpChannel.make fun _ => 0)
      (receptionsOf (machine.run (make .defaults .empty)
        (withHeartbeats (shortMessages 4294967296) ++ [.flush 0])).2.sent) := by
  have hcounts := numberedFrom_shortMessages (Nat.le_refl 4294967296)
  have hsend := sendable_shortMessages 4294967296
  have hlen := length_shortMessages 4294967296
  have hsplit : ∃ msgs msg, shortMessages 4294967296 = msgs ++ [msg] :=
    ⟨shortMessages 4294967295, shortMessage 4294967295, by
      rw [shortMessages, shortMessages, ← List.map_singleton, ← List.map_append, ← List.range_succ]⟩
  rw [received_withHeartbeats]
  refine ⟨MoldUdpPacerConfig.validate_defaults, hcounts, hsend, ?_⟩
  obtain ⟨msgs, msg, hmsgs⟩ := hsplit
  rw [hmsgs] at hcounts hsend hlen ⊢
  obtain ⟨batches, waiting, hfull, hbatches, hwaiting, hsent⟩ := sent_withHeartbeats
    MoldUdpPacerConfig.validate_defaults .empty hcounts hsend 0
  rw [hlen] at hfull
  rw [hsent]
  exact not_expected_of_full (Memory.length_read _ _ _) hbatches hwaiting (by simp) hfull (fun _ => 0)
    (ec_receptionsOf _) (map_bytes_receptionsOf _)

end MoldUdpPacer

end JayBeams.Itch5
