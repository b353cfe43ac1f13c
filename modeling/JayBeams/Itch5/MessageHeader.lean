import JayBeams.Itch5.BaseCoders

/-!
# Message headers

Every message starts with the same header. `UnknownMessage` is a message of which nothing but its
position in the feed is known: a pointer to its bytes and their number.
-/

set_option autoImplicit false

namespace JayBeams.Itch5

open Bytes

/-- `message_header` -/
structure MessageHeader where
  messageType : Int
  stockLocate : Int
  trackingNumber : Int
  timestamp : Int
  deriving DecidableEq, Repr

/-- `check_timestamp_range`: a timestamp is a number of nanoseconds since midnight -/
def checkTimestampRange (validate : Bool) (ts : Int) : Except Failure Unit :=
  if validate then
    if ts < 24 * 3600 * 1000000000 then .ok () else .error (.timestampRange ts)
  else .ok ()

namespace Decoder

/-- The nanoseconds of a timestamp. -/
def nanoseconds (m : Memory) (offset : Nat) : Int :=
  ((load16 m offset).toUInt64 <<< 32 ||| (load32 m (offset + 2)).toUInt64).toNat

/-- A timestamp is the same in memories that start with the same bytes. -/
theorem nanoseconds_congr {m m' : Memory} {n offset : Nat} (h : ∀ j, j < n → m j = m' j)
    (hn : offset + 6 ≤ n) : nanoseconds m offset = nanoseconds m' offset := by
  rw [nanoseconds, nanoseconds, load16_congr h (by omega), load32_congr h (by omega)]

/-- `decoder<validate, timestamp>::r` -/
def timestamp (validate : Bool) (size : Nat) (buf : Memory) (offset : Nat) :
    Except Failure Int := do
  checkOffset validate "timestamp" size offset 6
  let hi ← uint16 false size buf offset
  let lo ← uint32 false size buf (offset + 2)
  let ts : Int := (hi.toUInt64 <<< 32 ||| lo.toUInt64).toNat
  checkTimestampRange validate ts
  return ts

/-- `decoder<validate, message_header>::r` -/
def messageHeader (validate : Bool) (size : Nat) (buf : Memory) (off : Nat) :
    Except Failure MessageHeader := do
  let messageType ← uint8 validate size buf (off + 0)
  let stockLocate ← uint16 validate size buf (off + 1)
  let trackingNumber ← uint16 validate size buf (off + 3)
  let ts ← timestamp validate size buf (off + 5)
  return {
    messageType := messageType.toNat
    stockLocate := stockLocate.toNat
    trackingNumber := trackingNumber.toNat
    timestamp := ts }

end Decoder

/-- `unknown_message` -/
structure UnknownMessage where
  count : UInt32
  offset : Nat
  len : Nat
  buf : Memory

namespace UnknownMessage

/-- The bytes of a message. -/
def bytes (msg : UnknownMessage) : List UInt8 := msg.buf.read 0 msg.len

@[simp] theorem length_bytes (msg : UnknownMessage) : msg.bytes.length = msg.len := by simp [bytes]

/-- `unknown_message::decode_header` -/
def decodeHeader (validate : Bool) (msg : UnknownMessage) : Except Failure MessageHeader :=
  Decoder.messageHeader validate msg.len msg.buf 0

/-- Without validation every header decodes. -/
theorem decodeHeader_unchecked (msg : UnknownMessage) :
    ∃ header, msg.decodeHeader false = .ok header := ⟨_, rfl⟩

/-- The timestamp in the header of a message. -/
def timestamp (msg : UnknownMessage) : Int := Decoder.nanoseconds msg.buf 5

theorem decodeHeader_timestamp (msg : UnknownMessage) :
    ∃ header, msg.decodeHeader false = .ok header ∧ header.timestamp = msg.timestamp :=
  ⟨_, rfl, rfl⟩

end UnknownMessage

end JayBeams.Itch5
