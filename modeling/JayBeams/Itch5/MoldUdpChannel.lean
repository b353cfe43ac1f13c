import JayBeams.Itch5.MoldUdpPacket
import JayBeams.Library.Machine

/-!
# The MoldUDP64 channel

The channel receives packets into a buffer and hands each message in a packet to a handler, with a
sequence number and an offset into the stream. In the model the channel records what its handler was
invoked with.

What the handler is given for one packet is a function of the buffer and of the state before it
(`blockCalls`), which `handleBlocks_state` connects to the loop of the source. Two of its properties
differ from what the channel is meant to do. Every message of a packet gets the sequence number that
was expected before the packet (`numbered_iff`), and only the sizes of the blocks are checked to lie
inside the packet, not the messages (`slices_inside_iff`).
-/

set_option autoImplicit false

namespace JayBeams.Itch5

open Bytes Machines Machines.Machine MoldUdpProtocol

/-- What `buffer_handler` is invoked with: the pointer to the message is its position in the buffer,
and `message` are the bytes found there. -/
structure HandlerCall where
  recvTs : Int
  sequenceNumber : UInt64
  messageOffset : UInt64
  start : Nat
  message : List UInt8
  deriving DecidableEq

/-- `mold_udp_channel`, the calls that it made to its handler, and whether it has registered for the
next packet. -/
structure MoldUdpChannel where
  expectedSequenceNumber : UInt64
  messageOffset : UInt64
  buffer : Memory
  registered : Bool
  calls : List HandlerCall

/-- What the socket reports: an error code, 0 for none, and the bytes received. -/
structure Reception where
  recvTs : Int
  ec : Int
  bytes : List UInt8

namespace MoldUdpChannel

/-- The constructor; it does not set the contents of the buffer. -/
def make (buffer : Memory) : MoldUdpChannel := ⟨0, 0, buffer, true, []⟩

/-- `restart_async_receive_from` -/
def restartAsyncReceiveFrom : EStateM Failure MoldUdpChannel Unit :=
  modify fun ch => { ch with registered := true }

/-- The loop of `handle_received` over the blocks of a packet, with the blocks left, the local
sequence number and the offset. It returns the sequence number after the last block. -/
def handleBlocks (recvTs : Int) (bytesReceived : Nat) :
    Nat → UInt64 → Nat → EStateM Failure MoldUdpChannel UInt64
  | 0, sequenceNumber, _ => return sequenceNumber
  | block + 1, sequenceNumber, offset => do
      let ch ← get
      let messageSize ← liftExcept (Decoder.uint16 true bytesReceived ch.buffer offset)
      let offset := offset + 2
      -- the handler gets the number expected before the packet, not the local one
      modify fun ch =>
        { ch with
          calls := ch.calls ++ [⟨recvTs, ch.expectedSequenceNumber, ch.messageOffset, offset,
            ch.buffer.read offset messageSize.toNat⟩]
          messageOffset := ch.messageOffset + messageSize.toUInt64 }
      handleBlocks recvTs bytesReceived block (sequenceNumber + 1) (offset + messageSize.toNat)

/-- `handle_received`, at a time that all messages of the packet share -/
def handleReceived (recvTs : Int) (ec : Int) (bytesReceived : Nat) :
    EStateM Failure MoldUdpChannel Unit := do
  -- no more callbacks come after an error
  if ec ≠ 0 then return ()
  if bytesReceived ≤ 0 then
    restartAsyncReceiveFrom
    return ()
  let ch ← get
  let sequenceNumber ← liftExcept
    (Decoder.uint64 true bytesReceived ch.buffer sequenceNumberOffset)
  let blockCount ← liftExcept (Decoder.uint16 true bytesReceived ch.buffer blockCountOffset)
  -- a sequence number other than the expected one is logged
  let sequenceNumber ← handleBlocks recvTs bytesReceived blockCount.toNat sequenceNumber headerSize
  modify fun ch => { ch with expectedSequenceNumber := sequenceNumber }
  restartAsyncReceiveFrom

/-- The callback registered with the socket: the bytes are in the buffer when it is invoked, and it
is invoked once. -/
def receive (r : Reception) : EStateM Failure MoldUdpChannel Unit := do
  modify fun ch => { ch with buffer := ch.buffer.write 0 r.bytes, registered := false }
  handleReceived r.recvTs r.ec r.bytes.length

/-- The channel as a machine. -/
def machine : Machine MoldUdpChannel Reception (Except Failure Unit) := Machine.ofAction receive

/-- The state after a reception. -/
def after (ch : MoldUdpChannel) (r : Reception) : MoldUdpChannel := (machine.step ch r).2

/-- The calls made to the handler for a reception. -/
def delivered (ch : MoldUdpChannel) (r : Reception) : List HandlerCall :=
  (ch.after r).calls.drop ch.calls.length

/-! ## The calls of a packet -/

/-- The calls that the loop makes: one for each block whose size can be read. -/
def blockCalls (recvTs : Int) (number : UInt64) (bytesReceived : Nat) (buffer : Memory) :
    Nat → UInt64 → Nat → List HandlerCall
  | 0, _, _ => []
  | block + 1, messageOffset, offset =>
      if offset + 2 ≤ bytesReceived then
        ⟨recvTs, number, messageOffset, offset + 2,
          buffer.read (offset + 2) (load16 buffer offset).toNat⟩ ::
          blockCalls recvTs number bytesReceived buffer block
            (messageOffset + (load16 buffer offset).toUInt64)
            (offset + 2 + (load16 buffer offset).toNat)
      else []

/-- The offset into the stream after messages. -/
def offsetAfter (messageOffset : UInt64) (calls : List HandlerCall) : UInt64 :=
  calls.foldl (fun o call => o + UInt64.ofNat call.message.length) messageOffset

/-- The state with more calls made to the handler. -/
def withCalls (ch : MoldUdpChannel) (calls : List HandlerCall) : MoldUdpChannel :=
  { ch with
    calls := ch.calls ++ calls
    messageOffset := offsetAfter ch.messageOffset calls }

@[simp] theorem withCalls_nil (ch : MoldUdpChannel) : ch.withCalls [] = ch := by
  simp [withCalls, offsetAfter]

section Loop

variable (recvTs : Int) (bytesReceived : Nat)

/-- The calls that the loop makes from a state on. -/
abbrev loopCalls (ch : MoldUdpChannel) (block offset : Nat) : List HandlerCall :=
  blockCalls recvTs ch.expectedSequenceNumber bytesReceived ch.buffer block ch.messageOffset offset

/-- The state after one block. -/
def nextBlock (ch : MoldUdpChannel) (offset : Nat) : MoldUdpChannel :=
  ch.withCalls [⟨recvTs, ch.expectedSequenceNumber, ch.messageOffset, offset + 2,
    ch.buffer.read (offset + 2) (load16 ch.buffer offset).toNat⟩]

theorem messageOffset_nextBlock (ch : MoldUdpChannel) (offset : Nat) :
    (ch.nextBlock recvTs offset).messageOffset =
      ch.messageOffset + (load16 ch.buffer offset).toUInt64 := by
  simp [nextBlock, withCalls, offsetAfter]

/-- The calls of a block and of the blocks after it. -/
theorem withCalls_loopCalls (ch : MoldUdpChannel) (block : Nat) {offset : Nat}
    (h : offset + 2 ≤ bytesReceived) :
    (ch.nextBlock recvTs offset).withCalls (loopCalls recvTs bytesReceived
      (ch.nextBlock recvTs offset) block (offset + 2 + (load16 ch.buffer offset).toNat)) =
      ch.withCalls (loopCalls recvTs bytesReceived ch (block + 1) offset) := by
  rw [loopCalls, messageOffset_nextBlock, loopCalls, blockCalls, if_pos h]
  simp [nextBlock, withCalls, offsetAfter]

theorem handleBlocks_run (ch : MoldUdpChannel) (block : Nat) (sequenceNumber : UInt64)
    {offset : Nat} (h : offset + 2 ≤ bytesReceived) :
    (handleBlocks recvTs bytesReceived (block + 1) sequenceNumber offset).run ch =
      (handleBlocks recvTs bytesReceived block (sequenceNumber + 1)
        (offset + 2 + (load16 ch.buffer offset).toNat)).run (ch.nextBlock recvTs offset) := by
  rw [handleBlocks]
  simp only [EStateM.run_bind, EStateM.run_get, Decoder.uint16_ok true ch.buffer h,
    liftExcept_run_ok rfl, EStateM.run_modify]
  simp [nextBlock, withCalls, offsetAfter]

/-- The loop makes the calls of the blocks whose sizes can be read. -/
theorem handleBlocks_state (ch : MoldUdpChannel) (block : Nat) (sequenceNumber : UInt64)
    (offset : Nat) :
    finalState ((handleBlocks recvTs bytesReceived block sequenceNumber offset).run ch) =
      ch.withCalls (loopCalls recvTs bytesReceived ch block offset) := by
  induction block generalizing ch sequenceNumber offset with
  | zero => exact (withCalls_nil ch).symm
  | succ block ih =>
      rcases Nat.lt_or_ge bytesReceived (offset + 2) with h | h
      · -- the size of the block cannot be read
        rw [handleBlocks]
        simp only [EStateM.run_bind, EStateM.run_get, Decoder.uint16_error ch.buffer h]
        rw [loopCalls, blockCalls, if_neg (Nat.not_le.2 h), withCalls_nil]
        rfl
      · rw [handleBlocks_run recvTs bytesReceived ch block sequenceNumber h, ih,
          withCalls_loopCalls recvTs bytesReceived ch block h]

/-- When the sizes of all blocks can be read, the loop returns the number after the last one. -/
theorem handleBlocks_ok (ch : MoldUdpChannel) {block : Nat} (sequenceNumber : UInt64) (offset : Nat)
    (h : (loopCalls recvTs bytesReceived ch block offset).length = block) :
    (handleBlocks recvTs bytesReceived block sequenceNumber offset).run ch =
      .ok (sequenceNumber + UInt64.ofNat block)
        (ch.withCalls (loopCalls recvTs bytesReceived ch block offset)) := by
  induction block generalizing ch sequenceNumber offset with
  | zero =>
      rw [loopCalls, blockCalls, withCalls_nil]
      simp [handleBlocks]
  | succ block ih =>
      rw [loopCalls, blockCalls] at h
      split at h
      · next hin =>
          have hrest := ih (ch.nextBlock recvTs offset) (sequenceNumber + 1)
            (offset + 2 + (load16 ch.buffer offset).toNat) (by
              rw [loopCalls, messageOffset_nextBlock]
              exact Nat.succ.inj h)
          rw [handleBlocks_run recvTs bytesReceived ch block sequenceNumber hin, hrest,
            withCalls_loopCalls recvTs bytesReceived ch block hin]
          congr 1
          rw [UInt64.add_assoc, Nat.add_comm block 1, UInt64.ofNat_add]
          rfl
      · cases h

end Loop

section BlockCalls

open MoldUdpPacket

variable {recvTs : Int} {number : UInt64} {size : Nat} {m : Memory}

/-- Every message of a packet gets the same sequence number. -/
theorem sequenceNumber_of_mem_blockCalls {block offset : Nat} {messageOffset : UInt64}
    {call : HandlerCall}
    (h : call ∈ blockCalls recvTs number size m block messageOffset offset) :
    call.sequenceNumber = number := by
  induction block generalizing messageOffset offset with
  | zero => cases h
  | succ block ih =>
      rw [blockCalls] at h
      split at h
      · rcases List.mem_cons.1 h with rfl | h
        · rfl
        · exact ih h
      · cases h

/-- The bytes from the size of a block on. -/
theorem read_block {offset : Nat} (h : offset + 2 ≤ size) :
    m.read offset (size - offset) =
      m offset :: m (offset + 1) :: m.read (offset + 2) (size - (offset + 2)) := by
  have hsize : size - offset = size - (offset + 2) + 1 + 1 := by omega
  rw [hsize, Memory.read_succ, Memory.read_succ]

theorem blockSize_eq (m : Memory) (offset : Nat) :
    blockSize (m offset) (m (offset + 1)) = (load16 m offset).toNat := rfl

/-- The bytes after a message. -/
theorem drop_block (offset k : Nat) :
    (m.read (offset + 2) (size - (offset + 2))).drop k =
      m.read (offset + 2 + k) (size - (offset + 2 + k)) := by
  rw [Memory.drop_read, Nat.sub_sub]

/-- The messages handed to the handler lie inside the packet when no block announces more bytes than
there are. -/
theorem blockCalls_inside_iff (block : Nat) (messageOffset : UInt64) (offset : Nat) :
    (∀ call ∈ blockCalls recvTs number size m block messageOffset offset,
      call.start + call.message.length ≤ size) ↔
      PayloadsInside block (m.read offset (size - offset)) := by
  induction block generalizing messageOffset offset with
  | zero => simp [blockCalls, PayloadsInside]
  | succ block ih =>
      rw [blockCalls]
      split
      · next h =>
          rw [read_block h, PayloadsInside, List.forall_mem_cons, blockSize_eq, drop_block, ih]
          apply and_congr_left'
          rw [Memory.length_read, Memory.length_read]
          exact (Nat.le_sub_iff_add_le' h).symm
      · next h =>
          have hshort : (m.read offset (size - offset)).length < 2 := by
            rw [Memory.length_read]
            omega
          simp [payloadsInside_of_short hshort]

/-- The messages of blocks that lie inside the packet are handed to the handler. -/
theorem blockCalls_messages {block : Nat} {messages : List (List UInt8)}
    (messageOffset : UInt64) {offset : Nat}
    (h : blocks? block (m.read offset (size - offset)) = some messages) :
    (blockCalls recvTs number size m block messageOffset offset).map HandlerCall.message =
      messages := by
  induction block generalizing messages messageOffset offset with
  | zero =>
      cases h
      rfl
  | succ block ih =>
      rw [blockCalls]
      split
      · next hin =>
          rw [read_block hin, blocks?, blockSize_eq] at h
          split at h
          · next hsize =>
              rw [drop_block] at h
              obtain ⟨rest, hrest, rfl⟩ := Option.map_eq_some_iff.1 h
              rw [List.map_cons]
              congr 1
              · rw [Memory.length_read] at hsize
                exact (Memory.take_read m (offset + 2) hsize).symm
              · exact ih _ hrest
          · cases h
      · next hout =>
          have hshort : (m.read offset (size - offset)).length < 2 := by
            rw [Memory.length_read]
            omega
          rcases hbody : m.read offset (size - offset) with _ | ⟨hi, _ | ⟨lo, rest⟩⟩
          · rw [hbody] at h
            cases h
          · rw [hbody] at h
            cases h
          · rw [hbody, List.length_cons, List.length_cons] at hshort
            omega

/-- Calls for messages inside the packet depend on nothing else in the buffer. -/
theorem blockCalls_congr {m' : Memory} (hm : ∀ i, i < size → m i = m' i) {block : Nat}
    (messageOffset : UInt64) {offset : Nat}
    (h : PayloadsInside block (m.read offset (size - offset))) :
    blockCalls recvTs number size m block messageOffset offset =
      blockCalls recvTs number size m' block messageOffset offset := by
  induction block generalizing messageOffset offset with
  | zero => rfl
  | succ block ih =>
      rw [blockCalls, blockCalls]
      split
      · next hin =>
          rw [read_block hin, PayloadsInside, blockSize_eq, drop_block, Memory.length_read] at h
          obtain ⟨hsize, hrest⟩ := h
          have hend : offset + 2 + (load16 m offset).toNat ≤ size :=
            (Nat.le_sub_iff_add_le' hin).1 hsize
          have hread : m.read (offset + 2) (load16 m offset).toNat =
              m'.read (offset + 2) (load16 m offset).toNat :=
            Memory.read_congr fun i hi => hm _ (by omega)
          rw [← load16_congr hm hin, hread, ih _ hrest]
      · rfl

end BlockCalls

/-! ## Receiving a packet -/

section Receive

open MoldUdpPacket

variable (ch : MoldUdpChannel) (recvTs : Int) (packet : List UInt8)

/-- The channel with a packet in its buffer. -/
def loaded : MoldUdpChannel :=
  { ch with buffer := ch.buffer.write 0 packet, registered := false }

theorem buffer_loaded {i : Nat} (h : i < packet.length) :
    (ch.loaded packet).buffer i = Memory.ofList packet i :=
  Memory.write_zero_eq_ofList ch.buffer packet h

/-- The calls that the channel makes for a packet. -/
def packetCalls : List HandlerCall :=
  if packet.length < headerSize then []
  else loopCalls recvTs packet.length (ch.loaded packet) (blockCount packet).toNat headerSize

theorem after_eq (r : Reception) : ch.after r = finalState ((receive r).run ch) := by
  rw [after, machine, ofAction_step_state]

/-- A packet without a header leaves everything as it was but the buffer. -/
theorem receive_short (h : packet.length < headerSize) :
    ∃ registered, ch.after ⟨recvTs, 0, packet⟩ =
      { ch.loaded packet with registered := registered } := by
  have hbound : packet.length < 20 := h
  rw [after_eq]
  simp only [receive, handleReceived, EStateM.run_bind, EStateM.run_modify]
  by_cases h0 : packet.length ≤ 0
  · rw [if_pos h0]
    exact ⟨true, rfl⟩
  · rw [if_neg h0]
    refine ⟨false, ?_⟩
    rcases Nat.lt_or_ge packet.length (sequenceNumberOffset + 8) with h8 | h8
    · simp only [Decoder.uint64_error _ h8]
      rfl
    · have h2 : packet.length < blockCountOffset + 2 := hbound
      simp only [Decoder.uint64_ok true _ h8, Decoder.uint16_error _ h2]
      rfl

/-- A packet with a header is received by its loop. -/
theorem receive_run (h : headerSize ≤ packet.length) :
    (receive ⟨recvTs, 0, packet⟩).run ch =
      match (handleBlocks recvTs packet.length (blockCount packet).toNat (sequenceNumber packet)
        headerSize).run (ch.loaded packet) with
      | .ok number ch' => .ok () { ch' with expectedSequenceNumber := number, registered := true }
      | .error e ch' => .error e ch' := by
  have hbound : 20 ≤ packet.length := h
  have h0 : ¬ packet.length ≤ 0 := by omega
  have h8 : sequenceNumberOffset + 8 ≤ packet.length := Nat.le_trans (by decide) hbound
  have h2 : blockCountOffset + 2 ≤ packet.length := hbound
  have hbuffer : ∀ i, i < packet.length → (ch.loaded packet).buffer i = Memory.ofList packet i :=
    fun i hi => ch.buffer_loaded packet hi
  have hnumber := load64_congr hbuffer h8
  have hcount := load16_congr hbuffer h2
  have hrest : (receive ⟨recvTs, 0, packet⟩).run ch =
      (handleReceived recvTs 0 packet.length).run (ch.loaded packet) := rfl
  rw [hrest, handleReceived, if_neg (by decide : ¬ (0 : Int) ≠ 0), if_neg h0]
  simp only [EStateM.run_bind, EStateM.run_get, Decoder.uint64_ok true _ h8,
    Decoder.uint16_ok true _ h2, liftExcept_run_ok rfl]
  rw [hnumber, hcount]
  rw [sequenceNumber, blockCount]
  cases (handleBlocks recvTs packet.length _ _ headerSize).run (ch.loaded packet) <;> rfl

/-- The calls for a packet are those of its blocks. -/
theorem calls_after :
    (ch.after ⟨recvTs, 0, packet⟩).calls = ch.calls ++ ch.packetCalls recvTs packet := by
  rw [packetCalls]
  split
  · next h =>
      obtain ⟨registered, hafter⟩ := ch.receive_short recvTs packet h
      rw [hafter, List.append_nil]
      rfl
  · next h =>
      have hstate := handleBlocks_state recvTs packet.length (ch.loaded packet)
        (blockCount packet).toNat (sequenceNumber packet) headerSize
      rw [after_eq, receive_run ch recvTs packet (Nat.not_lt.1 h)]
      cases hrun : (handleBlocks recvTs packet.length (blockCount packet).toNat
          (sequenceNumber packet) headerSize).run (ch.loaded packet) with
      | ok number ch' =>
          rw [hrun] at hstate
          exact congrArg MoldUdpChannel.calls hstate
      | error e ch' =>
          rw [hrun] at hstate
          exact congrArg MoldUdpChannel.calls hstate

theorem delivered_eq : ch.delivered ⟨recvTs, 0, packet⟩ = ch.packetCalls recvTs packet := by
  rw [delivered, calls_after, List.drop_left]

/-- The body of a packet in the buffer. -/
theorem read_body :
    (ch.loaded packet).buffer.read headerSize (packet.length - headerSize) =
      packet.drop headerSize := by
  have hread : (ch.loaded packet).buffer.read 0 packet.length = packet :=
    Memory.read_write_self ch.buffer 0 packet
  have hdrop := Memory.drop_read (ch.loaded packet).buffer 0 packet.length headerSize
  rw [hread, Nat.zero_add] at hdrop
  exact hdrop.symm

variable {packet}

/-- The messages of a packet lie inside it when no block announces more bytes than there are. -/
theorem packetCalls_inside_iff (h : headerSize ≤ packet.length) :
    (∀ call ∈ ch.packetCalls recvTs packet, call.start + call.message.length ≤ packet.length) ↔
      PayloadsInside (blockCount packet).toNat (packet.drop headerSize) := by
  rw [packetCalls, if_neg (Nat.not_lt.2 h), ← ch.read_body packet]
  exact blockCalls_inside_iff _ _ _

/-- No message of a well-formed packet is read from beyond its end. -/
theorem delivered_inside (h : WellFormed packet) {call : HandlerCall}
    (hcall : call ∈ ch.delivered ⟨recvTs, 0, packet⟩) :
    call.start + call.message.length ≤ packet.length := by
  rw [delivered_eq] at hcall
  exact (ch.packetCalls_inside_iff recvTs h.1).2 (payloadsInside_of_blocks? h.2) call hcall

/-- The messages of a well-formed packet are handed to the handler, one call for each. -/
theorem packetCalls_messages {messages : List (List UInt8)} (h : headerSize ≤ packet.length)
    (hblocks : blocks? (blockCount packet).toNat (packet.drop headerSize) = some messages) :
    (ch.packetCalls recvTs packet).map HandlerCall.message = messages := by
  rw [packetCalls, if_neg (Nat.not_lt.2 h)]
  rw [← ch.read_body packet] at hblocks
  exact blockCalls_messages _ hblocks

theorem length_packetCalls (h : WellFormed packet) :
    (ch.packetCalls recvTs packet).length = (blockCount packet).toNat := by
  obtain ⟨messages, hblocks⟩ := Option.isSome_iff_exists.1 h.2
  rw [← List.length_map (f := HandlerCall.message), ch.packetCalls_messages recvTs h.1 hblocks,
    length_of_blocks? hblocks]

/-- A well-formed packet is received: the expected number is the one after its last message. -/
theorem after_wellFormed (h : WellFormed packet) :
    ch.after ⟨recvTs, 0, packet⟩ =
      { (ch.loaded packet).withCalls (ch.packetCalls recvTs packet) with
        expectedSequenceNumber :=
          sequenceNumber packet + UInt64.ofNat (blockCount packet).toNat
        registered := true } := by
  have hlen := ch.length_packetCalls recvTs h
  rw [packetCalls, if_neg (Nat.not_lt.2 h.1)] at hlen ⊢
  rw [after_eq, receive_run ch recvTs packet h.1,
    handleBlocks_ok recvTs packet.length (ch.loaded packet) _ headerSize hlen]
  rfl

/-! ## Sequence numbers -/

/-- The calls of a packet all carry the number that was expected before it. -/
theorem sequenceNumber_packetCalls (packet : List UInt8) :
    (ch.packetCalls recvTs packet).map HandlerCall.sequenceNumber =
      List.replicate (ch.packetCalls recvTs packet).length ch.expectedSequenceNumber := by
  rw [List.eq_replicate_iff]
  refine ⟨List.length_map _, ?_⟩
  intro number hnumber
  obtain ⟨call, hcall, rfl⟩ := List.mem_map.1 hnumber
  rw [packetCalls] at hcall
  split at hcall
  · cases hcall
  · exact sequenceNumber_of_mem_blockCalls hcall

/-- The numbers of `n` messages in a row, of which the first has the given number. -/
def numbersFrom (number : UInt64) (n : Nat) : List UInt64 :=
  (List.range n).map fun i => number + UInt64.ofNat i

/-- A repeated number is a row of numbers only when there is no more than one. -/
theorem replicate_eq_numbersFrom_iff (n : Nat) (expected number : UInt64) :
    List.replicate n expected = numbersFrom number n ↔ n = 0 ∨ n = 1 ∧ expected = number := by
  match n with
  | 0 => simp [numbersFrom]
  | 1 => simp [numbersFrom]
  | n + 2 =>
      constructor
      · intro h
        -- the first two numbers of a row differ
        have h0 := congrArg (fun l : List UInt64 => l[0]?) h
        have h1 := congrArg (fun l : List UInt64 => l[1]?) h
        simp only [numbersFrom, List.getElem?_replicate, List.getElem?_map, List.getElem?_range,
          Nat.zero_lt_succ, Nat.one_lt_succ_succ, if_true, Option.map_some, Option.some.injEq] at h0 h1
        have hnext : number + UInt64.ofNat 0 = number + UInt64.ofNat 1 := h0.symm.trans h1
        rw [UInt64.add_right_inj] at hnext
        cases hnext
      · rintro (h | ⟨h, -⟩)
        · cases h
        · omega

end Receive

/-- In every state reached, the handler is given the number of each message of a well-formed packet
exactly when the packet has no message, or a single one which is the one expected. -/
theorem numbered_iff (buffer : Memory) (before : List Reception) (recvTs : Int)
    {packet : List UInt8} (h : MoldUdpPacket.WellFormed packet) :
    let ch := (machine.run (make buffer) before).2
    let n := (MoldUdpPacket.blockCount packet).toNat
    let number := MoldUdpPacket.sequenceNumber packet
    ((ch.delivered ⟨recvTs, 0, packet⟩).map HandlerCall.sequenceNumber = numbersFrom number n ∧
        (ch.after ⟨recvTs, 0, packet⟩).expectedSequenceNumber = number + UInt64.ofNat n) ↔
      n = 0 ∨ n = 1 ∧ ch.expectedSequenceNumber = number := by
  intro ch n number
  have hnext : (ch.after ⟨recvTs, 0, packet⟩).expectedSequenceNumber = number + UInt64.ofNat n := by
    rw [after_wellFormed ch recvTs h]
  rw [and_iff_left hnext, delivered_eq, sequenceNumber_packetCalls, length_packetCalls ch recvTs h]
  exact replicate_eq_numbersFrom_iff n ch.expectedSequenceNumber number

/-- A packet with one message of one byte, numbered 0. -/
def onePacket : List UInt8 := MoldUdpPacket.encodePacket (List.replicate 10 32) 0 [[83]]

/-- A packet with two messages of one byte, the first numbered 0. -/
def twoPacket : List UInt8 := MoldUdpPacket.encodePacket (List.replicate 10 32) 0 [[83], [82]]

theorem wellFormed_onePacket : MoldUdpPacket.WellFormed onePacket := by decide

/-- The first message of a stream, alone in its packet, gets its number. -/
theorem numbered_onePacket :
    ((make fun _ => 0).delivered ⟨0, 0, onePacket⟩).map HandlerCall.sequenceNumber = numbersFrom 0 1 :=
  ((numbered_iff (fun _ => 0) [] 0 wellFormed_onePacket).2 (Or.inr ⟨by decide, by decide⟩)).1

/-- The second message of a packet gets the number of the first one. -/
theorem twoPacket_not_numbered :
    MoldUdpPacket.WellFormed twoPacket ∧
    MoldUdpPacket.sequenceNumber twoPacket = (make fun _ => 0).expectedSequenceNumber ∧
    ((make fun _ => 0).delivered ⟨0, 0, twoPacket⟩).map HandlerCall.sequenceNumber = [0, 0] ∧
    ((make fun _ => 0).delivered ⟨0, 0, twoPacket⟩).map HandlerCall.sequenceNumber ≠
      numbersFrom 0 2 := by
  decide

/-! ## Slices -/

/-- The messages handed to the handler lie inside the packet, and do not depend on what the buffer
held before, exactly when no block of the packet announces more bytes than there are. -/
theorem slices_inside_iff (ch : MoldUdpChannel) (recvTs : Int) (packet : List UInt8) :
    ((∀ call ∈ ch.delivered ⟨recvTs, 0, packet⟩,
        call.start + call.message.length ≤ packet.length) ∧
      ∀ stale : Memory,
        ({ ch with buffer := stale } : MoldUdpChannel).delivered ⟨recvTs, 0, packet⟩ =
          ch.delivered ⟨recvTs, 0, packet⟩) ↔
      (headerSize ≤ packet.length →
        MoldUdpPacket.PayloadsInside (MoldUdpPacket.blockCount packet).toNat
          (packet.drop headerSize)) := by
  simp only [delivered_eq]
  by_cases h : packet.length < headerSize
  · simp [packetCalls, h, Nat.not_le.2 h]
  · have hle : headerSize ≤ packet.length := Nat.not_lt.1 h
    have hinside := ch.packetCalls_inside_iff recvTs hle
    simp only [hle, true_implies]
    rw [← hinside]
    constructor
    · exact And.left
    · intro hall
      refine ⟨hall, fun stale => ?_⟩
      -- the two buffers hold the same packet
      have hbuffer : ∀ i, i < packet.length →
          (ch.loaded packet).buffer i = ({ ch with buffer := stale }.loaded packet).buffer i := by
        intro i hi
        rw [buffer_loaded ch packet hi, buffer_loaded { ch with buffer := stale } packet hi]
      rw [packetCalls, packetCalls, if_neg h, if_neg h]
      refine (blockCalls_congr hbuffer ch.messageOffset ?_).symm
      rw [read_body]
      exact hinside.1 hall

/-- A packet that announces a message of five bytes and ends there. -/
def cutPacket : List UInt8 :=
  List.replicate 10 32 ++ bytes64 0 ++ bytes16 1 ++ bytes16 5

/-- The message of the cut packet is read from beyond its end, where the buffer still holds what an
earlier packet left there. -/
theorem cutPacket_reads_stale :
    cutPacket.length = 22 ∧
    (make fun _ => 7).delivered ⟨0, 0, cutPacket⟩ = [⟨0, 0, 0, 22, [7, 7, 7, 7, 7]⟩] ∧
    (make fun _ => 8).delivered ⟨0, 0, cutPacket⟩ = [⟨0, 0, 0, 22, [8, 8, 8, 8, 8]⟩] := by
  decide

end MoldUdpChannel

end JayBeams.Itch5
