import JayBeams.Itch5.MoldUdpChannel

/-!
# Malformed packets

A channel should either hand over all the blocks that a packet announces or leave its counters alone,
and it should register for the next packet in any case (`Undisturbed`).

The decoders raise at a packet without a header, and at a block whose size cannot be read. Neither
exception is caught in `handle_received`, whose last statement registers for the next packet, so that
the channel is undisturbed exactly when nothing raises (`undisturbed_iff`). In the loop the exception
comes after the blocks before were handed over (`announcedTwo_disturbs`).
-/

set_option autoImplicit false

namespace JayBeams.Itch5

open Bytes Machines Machines.Machine MoldUdpProtocol

namespace MoldUdpPacket

/-- The sizes of `n` blocks can be read. -/
def SizesInside : Nat → List UInt8 → Prop
  | 0, _ => True
  | n + 1, hi :: lo :: rest => SizesInside n (rest.drop (blockSize hi lo))
  | _ + 1, _ => False

/-- Blocks lie inside the bytes when their sizes can be read and no message goes past the end. -/
theorem isSome_blocks?_iff (n : Nat) (body : List UInt8) :
    (blocks? n body).isSome ↔ SizesInside n body ∧ PayloadsInside n body := by
  induction n generalizing body with
  | zero => simp [blocks?, SizesInside, PayloadsInside]
  | succ n ih =>
      rcases body with _ | ⟨hi, _ | ⟨lo, rest⟩⟩
      · simp [blocks?, SizesInside]
      · simp [blocks?, SizesInside]
      · rw [blocks?, SizesInside, PayloadsInside]
        split_ifs with hsize
        · rw [Option.isSome_map, ih]
          exact (and_congr_right fun _ => (and_iff_right hsize)).symm
        · refine iff_of_false Bool.false_ne_true ?_
          rintro ⟨-, hin, -⟩
          exact hsize hin

/-- The packet holds a header and the sizes of all the blocks that the header announces. -/
def SizesReadable (packet : List UInt8) : Prop :=
  headerSize ≤ packet.length ∧ SizesInside (blockCount packet).toNat (packet.drop headerSize)

end MoldUdpPacket

namespace MoldUdpChannel

open MoldUdpPacket

section Loop

variable {recvTs : Int} {number : UInt64} {size : Nat} {m : Memory}

/-- There is a call for each block when all their sizes can be read. -/
theorem length_blockCalls_iff (block : Nat) (messageOffset : UInt64) (offset : Nat) :
    (blockCalls recvTs number size m block messageOffset offset).length = block ↔
      SizesInside block (m.read offset (size - offset)) := by
  induction block generalizing messageOffset offset with
  | zero => exact iff_of_true rfl trivial
  | succ block ih =>
      rw [blockCalls]
      split
      · next h =>
          rw [read_block h, SizesInside, List.length_cons, Nat.succ_inj, blockSize_eq, drop_block, ih]
      · next h =>
          -- No size can be read, neither from the buffer nor from the list.
          have hshort : (m.read offset (size - offset)).length < 2 := by
            rw [Memory.length_read]
            omega
          refine iff_of_false (Nat.succ_ne_zero block).symm ?_
          rcases hbody : m.read offset (size - offset) with _ | ⟨hi, _ | ⟨lo, rest⟩⟩
          · exact id
          · exact id
          · rw [hbody, List.length_cons, List.length_cons] at hshort
            omega

/-- When the size of a block cannot be read, the loop raises after the calls for the blocks before. -/
theorem handleBlocks_raises (ch : MoldUdpChannel) {block : Nat} (sequenceNumber : UInt64)
    (offset : Nat) (h : (loopCalls recvTs size ch block offset).length ≠ block) :
    ∃ e, (handleBlocks recvTs size block sequenceNumber offset).run ch =
      .error e (ch.withCalls (loopCalls recvTs size ch block offset)) := by
  induction block generalizing ch sequenceNumber offset with
  | zero => exact absurd rfl h
  | succ block ih =>
      rcases Nat.lt_or_ge size (offset + 2) with hout | hin
      · rw [loopCalls, blockCalls, if_neg (Nat.not_le.2 hout), withCalls_nil, handleBlocks]
        simp only [EStateM.run_bind, EStateM.run_get, Decoder.uint16_error ch.buffer hout]
        exact ⟨_, rfl⟩
      · rw [loopCalls, blockCalls, if_pos hin, List.length_cons] at h
        obtain ⟨e, hrun⟩ := ih (ch.nextBlock recvTs offset) (sequenceNumber + 1)
          (offset + 2 + (load16 ch.buffer offset).toNat) (by
            rw [loopCalls, messageOffset_nextBlock]
            exact fun hlen => h (congrArg Nat.succ hlen))
        refine ⟨e, ?_⟩
        rw [handleBlocks_run recvTs size ch block sequenceNumber hin, hrun,
          withCalls_loopCalls recvTs size ch block hin]

end Loop

section Receive

variable (ch : MoldUdpChannel) (recvTs : Int) {packet : List UInt8}

/-- What a packet should do to a channel: all the blocks that it announces are handed to the handler, or
no call is made and the counters stay, and the channel has registered for the next packet. -/
def Undisturbed (ch : MoldUdpChannel) (r : Reception) : Prop :=
  (headerSize ≤ r.bytes.length ∧ (ch.delivered r).length = (blockCount r.bytes).toNat ∨
    ch.delivered r = [] ∧ (ch.after r).expectedSequenceNumber = ch.expectedSequenceNumber ∧
      (ch.after r).messageOffset = ch.messageOffset) ∧
    (ch.after r).registered = true

/-- There is a call for each block that the packet announces when the sizes can be read. -/
theorem length_packetCalls_iff (h : headerSize ≤ packet.length) :
    (ch.packetCalls recvTs packet).length = (blockCount packet).toNat ↔
      SizesInside (blockCount packet).toNat (packet.drop headerSize) := by
  rw [packetCalls, if_neg (Nat.not_lt.2 h), ← ch.read_body packet]
  exact length_blockCalls_iff _ _ _

/-- A packet whose sizes can be read is received to the end. -/
theorem after_sizesReadable (h : SizesReadable packet) :
    ch.after ⟨recvTs, 0, packet⟩ =
      { (ch.loaded packet).withCalls (ch.packetCalls recvTs packet) with
        expectedSequenceNumber :=
          sequenceNumber packet + UInt64.ofNat (blockCount packet).toNat
        registered := true } := by
  have hlen := (ch.length_packetCalls_iff recvTs h.1).2 h.2
  rw [packetCalls, if_neg (Nat.not_lt.2 h.1)] at hlen ⊢
  rw [after_eq, receive_run ch recvTs packet h.1,
    handleBlocks_ok recvTs packet.length (ch.loaded packet) _ headerSize hlen]
  rfl

/-- Any other packet that is not empty raises, and the channel does not register for the next one. -/
theorem registered_after (hne : packet ≠ []) (h : ¬ SizesReadable packet) :
    (ch.after ⟨recvTs, 0, packet⟩).registered = false := by
  rcases Nat.lt_or_ge packet.length headerSize with hshort | hheader
  · -- the sequence number or the count of blocks cannot be read
    have hpos : ¬ packet.length ≤ 0 := by
      intro hzero
      exact hne (List.length_eq_zero_iff.1 (Nat.le_zero.1 hzero))
    have hbound : packet.length < 20 := hshort
    rw [after_eq]
    simp only [receive, handleReceived, EStateM.run_bind, EStateM.run_modify]
    rw [if_neg (by decide : ¬ (0 : Int) ≠ 0), if_neg hpos]
    rcases Nat.lt_or_ge packet.length (sequenceNumberOffset + 8) with h8 | h8
    · simp only [EStateM.run_bind, EStateM.run_get, Decoder.uint64_error _ h8]
      rfl
    · have h2 : packet.length < blockCountOffset + 2 := hbound
      simp only [EStateM.run_bind, EStateM.run_get, Decoder.uint64_ok true _ h8,
        Decoder.uint16_error _ h2, liftExcept_run_ok rfl]
      rfl
  · -- A block that has no size ends the loop before its count is reached.
    have hlen : (loopCalls recvTs packet.length (ch.loaded packet) (blockCount packet).toNat
        headerSize).length ≠ (blockCount packet).toNat := by
      intro hlen
      apply h
      refine ⟨hheader, (ch.length_packetCalls_iff recvTs hheader).1 ?_⟩
      rw [packetCalls, if_neg (Nat.not_lt.2 hheader)]
      exact hlen
    obtain ⟨e, hrun⟩ := handleBlocks_raises (ch.loaded packet) (sequenceNumber packet) headerSize hlen
    rw [after_eq, receive_run ch recvTs packet hheader, hrun]
    rfl

/-- A packet leaves a channel undisturbed exactly when it holds a header and the sizes of all the blocks
that it announces; all the messages besides lie inside the packet exactly when it is well-formed. -/
theorem undisturbed_iff (hne : packet ≠ []) :
    (Undisturbed ch ⟨recvTs, 0, packet⟩ ↔ SizesReadable packet) ∧
      (Undisturbed ch ⟨recvTs, 0, packet⟩ ∧
        (∀ call ∈ ch.delivered ⟨recvTs, 0, packet⟩,
          call.start + call.message.length ≤ packet.length) ↔ WellFormed packet) := by
  have hiff : Undisturbed ch ⟨recvTs, 0, packet⟩ ↔ SizesReadable packet := by
    constructor
    · rintro ⟨-, hregistered⟩
      by_contra hnot
      rw [ch.registered_after recvTs hne hnot] at hregistered
      cases hregistered
    · intro hreadable
      refine ⟨Or.inl ⟨hreadable.1, ?_⟩, ?_⟩
      · rw [delivered_eq]
        exact (ch.length_packetCalls_iff recvTs hreadable.1).2 hreadable.2
      · rw [ch.after_sizesReadable recvTs hreadable]
  refine ⟨hiff, ?_⟩
  rw [hiff, delivered_eq]
  constructor
  · rintro ⟨⟨hheader, hsizes⟩, hinside⟩
    have hpayloads := (ch.packetCalls_inside_iff recvTs hheader).1 hinside
    exact ⟨hheader, (isSome_blocks?_iff _ _).2 ⟨hsizes, hpayloads⟩⟩
  · rintro ⟨hheader, hblocks⟩
    obtain ⟨hsizes, hpayloads⟩ := (isSome_blocks?_iff _ _).1 hblocks
    exact ⟨⟨hheader, hsizes⟩, (ch.packetCalls_inside_iff recvTs hheader).2 hpayloads⟩

end Receive

/-- A packet with one message leaves the channel undisturbed. -/
theorem undisturbed_onePacket : Undisturbed (make fun _ => 0) ⟨0, 0, onePacket⟩ := by
  have hne : onePacket ≠ [] := by decide
  exact ((undisturbed_iff (make fun _ => 0) 0 hne).2.2 wellFormed_onePacket).1

/-- A packet that announces two blocks and ends after the first one. -/
def announcedTwo : List UInt8 :=
  List.replicate 10 32 ++ bytes64 0 ++ bytes16 2 ++ encodeBlock [83]

/-- The first block of the packet is handed over and counted, and then the channel stops receiving. -/
theorem announcedTwo_disturbs :
    (make fun _ => 0).delivered ⟨0, 0, announcedTwo⟩ = [⟨0, 0, 0, 22, [83]⟩] ∧
      ((make fun _ => 0).after ⟨0, 0, announcedTwo⟩).expectedSequenceNumber = 0 ∧
      ((make fun _ => 0).after ⟨0, 0, announcedTwo⟩).messageOffset = 1 ∧
      ¬ Undisturbed (make fun _ => 0) ⟨0, 0, announcedTwo⟩ := by
  refine ⟨by decide, by decide, by decide, ?_⟩
  rintro ⟨-, hregistered⟩
  revert hregistered
  decide

end MoldUdpChannel

end JayBeams.Itch5
