import JayBeams.Itch5.BaseCoders

/-!
# MoldUDP64 packets

A packet starts with a header, which holds the session id, the sequence number of the first message
and the number of messages, and goes on with one block for each message: the size of the message in
two bytes and then the message. `encodePacket` is that layout.

`blocks?` reads the messages back from the bytes after the header, when these hold all the blocks
announced (`blocks?_encodeBlocks`). `PayloadsInside` says less: no block whose size can be read
announces more bytes than there are.
-/

set_option autoImplicit false

namespace JayBeams.Itch5

open Bytes

namespace MoldUdpProtocol

/-- `session_id_size` -/
def sessionIdSize : Nat := 10

/-- `sequence_number_offset` -/
def sequenceNumberOffset : Nat := sessionIdSize

/-- `block_count_offset` -/
def blockCountOffset : Nat := sequenceNumberOffset + 8

/-- `header_size` -/
def headerSize : Nat := blockCountOffset + 2

end MoldUdpProtocol

namespace MoldUdpPacket

open MoldUdpProtocol

/-- The block of a message. -/
def encodeBlock (message : List UInt8) : List UInt8 :=
  bytes16 (UInt16.ofNat message.length) ++ message

/-- The blocks of messages, one after the other. -/
def encodeBlocks (messages : List (List UInt8)) : List UInt8 := messages.flatMap encodeBlock

/-- The packet that carries messages, of which the first has the given sequence number. -/
def encodePacket (sessionId : List UInt8) (sequenceNumber : UInt64) (messages : List (List UInt8)) :
    List UInt8 :=
  sessionId ++ (bytes64 sequenceNumber ++
    (bytes16 (UInt16.ofNat messages.length) ++ encodeBlocks messages))

/-- The sequence number in the header of a packet. -/
def sequenceNumber (packet : List UInt8) : UInt64 :=
  load64 (Memory.ofList packet) sequenceNumberOffset

/-- The number of blocks in the header of a packet. -/
def blockCount (packet : List UInt8) : UInt16 := load16 (Memory.ofList packet) blockCountOffset

/-- The size that the two bytes before a block announce. -/
def blockSize (hi lo : UInt8) : Nat := (hi.toUInt16 <<< 8 ||| lo.toUInt16).toNat

/-- The messages of `n` blocks, when all of them lie inside the bytes. -/
def blocks? : Nat → List UInt8 → Option (List (List UInt8))
  | 0, _ => some []
  | n + 1, hi :: lo :: rest =>
      if blockSize hi lo ≤ rest.length then
        (blocks? n (rest.drop (blockSize hi lo))).map (rest.take (blockSize hi lo) :: ·)
      else none
  | _ + 1, _ => none

/-- None of `n` blocks, up to the first one whose size cannot be read, announces a message that goes
past the end of the bytes. -/
def PayloadsInside : Nat → List UInt8 → Prop
  | 0, _ => True
  | n + 1, hi :: lo :: rest =>
      blockSize hi lo ≤ rest.length ∧ PayloadsInside n (rest.drop (blockSize hi lo))
  | _ + 1, _ => True

/-- The packet holds a header and all the blocks that the header announces. -/
def WellFormed (packet : List UInt8) : Prop :=
  headerSize ≤ packet.length ∧
    (blocks? (blockCount packet).toNat (packet.drop headerSize)).isSome

instance (packet : List UInt8) : Decidable (WellFormed packet) :=
  inferInstanceAs (Decidable (_ ∧ _))

/-! ## Blocks -/

theorem length_of_blocks? {n : Nat} {body : List UInt8} {messages : List (List UInt8)}
    (h : blocks? n body = some messages) : messages.length = n := by
  induction n generalizing body messages with
  | zero =>
      cases h
      rfl
  | succ n ih =>
      rcases body with _ | ⟨hi, _ | ⟨lo, rest⟩⟩
      · cases h
      · cases h
      · rw [blocks?] at h
        split at h
        · obtain ⟨tail, htail, rfl⟩ := Option.map_eq_some_iff.1 h
          rw [List.length_cons, ih htail]
        · cases h

/-- Blocks that all lie inside the bytes have no message that goes past their end. -/
theorem payloadsInside_of_blocks? {n : Nat} {body : List UInt8} (h : (blocks? n body).isSome) :
    PayloadsInside n body := by
  induction n generalizing body with
  | zero => trivial
  | succ n ih =>
      rcases body with _ | ⟨hi, _ | ⟨lo, rest⟩⟩
      · trivial
      · trivial
      · rw [blocks?] at h
        split at h
        · next hin => exact ⟨hin, ih (by simpa using h)⟩
        · cases h

/-- Bytes too few for the size of a block hold no message that goes past their end. -/
theorem payloadsInside_of_short {body : List UInt8} (h : body.length < 2) (n : Nat) :
    PayloadsInside n body := by
  cases n with
  | zero => trivial
  | succ n =>
      rcases body with _ | ⟨hi, _ | ⟨lo, rest⟩⟩
      · trivial
      · trivial
      · rw [List.length_cons, List.length_cons] at h
        omega

theorem blockSize_bytes16 {message : List UInt8} (h : message.length < 65536) :
    blockSize (UInt16.ofNat message.length >>> 8).toUInt8
      (UInt16.ofNat message.length &&& 0xff).toUInt8 = message.length := by
  rw [blockSize, halves16, UInt16.toNat_ofNat']
  exact Nat.mod_eq_of_lt h

/-- The blocks of messages read back as these messages. -/
theorem blocks?_encodeBlocks {messages : List (List UInt8)}
    (h : ∀ message ∈ messages, message.length < 65536) (rest : List UInt8) :
    blocks? messages.length (encodeBlocks messages ++ rest) = some messages := by
  induction messages with
  | nil => rfl
  | cons message messages ih =>
      have hsize := blockSize_bytes16 (h message List.mem_cons_self)
      have ih := ih fun m hm => h m (List.mem_cons_of_mem message hm)
      rw [encodeBlocks, List.flatMap_cons, encodeBlock, bytes16, List.length_cons]
      simp only [List.cons_append, List.nil_append, List.append_assoc, blocks?, hsize]
      rw [if_pos (by simp), List.drop_left, List.take_left]
      rw [encodeBlocks] at ih
      rw [ih, Option.map_some]

@[simp] theorem length_encodeBlock (message : List UInt8) :
    (encodeBlock message).length = message.length + 2 := by
  rw [encodeBlock, List.length_append, length_bytes16, Nat.add_comm]

theorem encodeBlocks_append (messages : List (List UInt8)) (message : List UInt8) :
    encodeBlocks (messages ++ [message]) = encodeBlocks messages ++ encodeBlock message := by
  simp [encodeBlocks]

/-! ## Headers -/

section Header

variable {sessionId : List UInt8} (number : UInt64) (messages : List (List UInt8))

/-- The fields of the header of a packet, and what follows them. -/
theorem read_encodePacket (h : sessionId.length = sessionIdSize) {m : Memory} {n : Nat}
    (hread : m.read 0 n = encodePacket sessionId number messages) :
    n = headerSize + (encodeBlocks messages).length ∧
    load64 m sequenceNumberOffset = number ∧
    load16 m blockCountOffset = UInt16.ofNat messages.length ∧
    m.read headerSize (encodeBlocks messages).length = encodeBlocks messages := by
  have hn : n = sessionIdSize + (8 + (2 + (encodeBlocks messages).length)) := by
    have hlen := congrArg List.length hread
    simpa [encodePacket, h] using hlen
  subst hn
  obtain ⟨-, hread⟩ := read_append hread h
  rw [Nat.zero_add] at hread
  obtain ⟨hnumber, hread⟩ := read_append hread (length_bytes64 number)
  obtain ⟨hcount, hbody⟩ := read_append hread (length_bytes16 _)
  refine ⟨?_, load64_of_read hnumber, load16_of_read hcount, hbody⟩
  rw [headerSize, blockCountOffset, sequenceNumberOffset]
  omega

variable (h : sessionId.length = sessionIdSize)
include h

theorem length_encodePacket :
    (encodePacket sessionId number messages).length = headerSize + (encodeBlocks messages).length := by
  exact (read_encodePacket number messages h (Memory.read_ofList _)).1

theorem sequenceNumber_encodePacket :
    sequenceNumber (encodePacket sessionId number messages) = number :=
  (read_encodePacket number messages h (Memory.read_ofList _)).2.1

theorem blockCount_encodePacket :
    blockCount (encodePacket sessionId number messages) = UInt16.ofNat messages.length :=
  (read_encodePacket number messages h (Memory.read_ofList _)).2.2.1

theorem drop_encodePacket :
    (encodePacket sessionId number messages).drop headerSize = encodeBlocks messages := by
  have hread := Memory.read_ofList (encodePacket sessionId number messages)
  obtain ⟨hlen, -, -, hbody⟩ := read_encodePacket number messages h hread
  rw [← hread, Memory.drop_read, Nat.zero_add, hlen, Nat.add_sub_cancel_left, hbody]

/-- The messages of a packet read back. -/
theorem blocks?_encodePacket (hcount : messages.length < 65536)
    (hsize : ∀ message ∈ messages, message.length < 65536) :
    blocks? (blockCount (encodePacket sessionId number messages)).toNat
      ((encodePacket sessionId number messages).drop headerSize) = some messages := by
  have hlen : (UInt16.ofNat messages.length).toNat = messages.length := by
    rw [UInt16.toNat_ofNat']
    exact Nat.mod_eq_of_lt hcount
  rw [blockCount_encodePacket number messages h, drop_encodePacket number messages h, hlen]
  simpa using blocks?_encodeBlocks hsize []

end Header

end MoldUdpPacket

end JayBeams.Itch5
