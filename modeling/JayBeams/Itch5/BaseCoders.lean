import JayBeams.Common
import JayBeams.Library.Memory
import Mathlib.Algebra.Group.Nat.Defs

/-!
# Decoding and encoding integers

The integers of a message are sent with the most significant byte first. A decoder reads one from a
buffer of a given size at an offset, an encoder writes one; with `validate` both check first that the
field lies inside the buffer. The buffer of an encoder starts at an address of the memory.

`FieldWriter` has the encoders as computations on the memory, in which the bytes written before an
exception stay. They write nothing before their check, so what they leave is what they return
(`FieldWriter.written`), and `Encoder` has them as functions to the memory that they return.

`bytes16`, `bytes32` and `bytes64` are the bytes that the encoders write (`Encoder.uint16_ok` and the
other `_ok` lemmas), and the decoders read the integer back from them (`Decoder.uint16_ok` with
`load16_of_read`).
-/

set_option autoImplicit false

namespace JayBeams.Itch5

open Bytes

/-- `check_offset`, which does nothing without `validate` -/
def checkOffset (validate : Bool) (msg : String) (size offset n : Nat) : Except Failure Unit :=
  if validate then
    if 0 < n ∧ offset < size ∧ offset + n ≤ size then .ok ()
    else .error (.invalidOffset msg size offset n)
  else .ok ()

theorem checkOffset_ok (validate : Bool) (msg : String) {size offset n : Nat} (hn : 0 < n)
    (h : offset + n ≤ size) : checkOffset validate msg size offset n = .ok () := by
  cases validate with
  | false => rfl
  | true =>
      have hin : 0 < n ∧ offset < size ∧ offset + n ≤ size := ⟨hn, by omega, h⟩
      simp only [checkOffset, if_pos hin]
      rfl

theorem checkOffset_error (msg : String) {size offset n : Nat} (h : size < offset + n) :
    checkOffset true msg size offset n = .error (.invalidOffset msg size offset n) := by
  have hout : ¬ (0 < n ∧ offset < size ∧ offset + n ≤ size) := fun hin =>
    Nat.not_le.2 h hin.2.2
  simp only [checkOffset, if_neg hout]
  rfl

/-! ## Halves of an integer -/

theorem or_halves (n k : Nat) : (n >>> k) <<< k ||| n % 2 ^ k = n := by
  rw [← Nat.shiftLeft_add_eq_or_of_lt (Nat.mod_lt n (Nat.two_pow_pos k)), Nat.shiftLeft_eq,
    Nat.shiftRight_eq_div_pow, Nat.mul_comm, Nat.div_add_mod]

/-- The high half of an integer keeps its place when it is shifted back. -/
theorem shift_halves {n k : Nat} (h : n < 2 ^ (k + k)) :
    n >>> k < 2 ^ k ∧ (n >>> k) <<< k < 2 ^ (k + k) := by
  rw [Nat.shiftRight_eq_div_pow, Nat.shiftLeft_eq]
  constructor
  · rw [Nat.div_lt_iff_lt_mul (Nat.two_pow_pos k), ← Nat.pow_add]
    exact h
  · exact Nat.lt_of_le_of_lt (Nat.div_mul_le_self n (2 ^ k)) h

theorem halves16 (x : UInt16) :
    (x >>> 8).toUInt8.toUInt16 <<< 8 ||| (x &&& 0xff).toUInt8.toUInt16 = x := by
  apply UInt16.toNat_inj.1
  obtain ⟨hhi, hback⟩ := shift_halves (k := 8) x.toNat_lt
  have hlo : x.toNat &&& 255 = x.toNat % 2 ^ 8 := Nat.and_two_pow_sub_one_eq_mod x.toNat 8
  simp only [UInt16.toNat_or, UInt16.toNat_shiftLeft, UInt16.toNat_shiftRight, UInt16.toNat_and,
    UInt8.toNat_toUInt16, UInt16.toNat_toUInt8, UInt16.reduceToNat, Nat.reduceMod, hlo]
  rw [Nat.mod_eq_of_lt hhi, Nat.mod_eq_of_lt hback, Nat.mod_mod]
  exact or_halves x.toNat 8

theorem halves32 (x : UInt32) :
    (x >>> 16).toUInt16.toUInt32 <<< 16 ||| (x &&& 0xffff).toUInt16.toUInt32 = x := by
  apply UInt32.toNat_inj.1
  obtain ⟨hhi, hback⟩ := shift_halves (k := 16) x.toNat_lt
  have hlo : x.toNat &&& 65535 = x.toNat % 2 ^ 16 := Nat.and_two_pow_sub_one_eq_mod x.toNat 16
  simp only [UInt32.toNat_or, UInt32.toNat_shiftLeft, UInt32.toNat_shiftRight, UInt32.toNat_and,
    UInt16.toNat_toUInt32, UInt32.toNat_toUInt16, UInt32.reduceToNat, Nat.reduceMod, hlo]
  rw [Nat.mod_eq_of_lt hhi, Nat.mod_eq_of_lt hback, Nat.mod_mod]
  exact or_halves x.toNat 16

theorem halves64 (x : UInt64) :
    (x >>> 32).toUInt32.toUInt64 <<< 32 ||| (x &&& 0xffffffff).toUInt32.toUInt64 = x := by
  apply UInt64.toNat_inj.1
  obtain ⟨hhi, hback⟩ := shift_halves (k := 32) x.toNat_lt
  have hlo : x.toNat &&& 4294967295 = x.toNat % 2 ^ 32 :=
    Nat.and_two_pow_sub_one_eq_mod x.toNat 32
  simp only [UInt64.toNat_or, UInt64.toNat_shiftLeft, UInt64.toNat_shiftRight, UInt64.toNat_and,
    UInt32.toNat_toUInt64, UInt64.toNat_toUInt32, UInt64.reduceToNat, Nat.reduceMod, hlo]
  rw [Nat.mod_eq_of_lt hhi, Nat.mod_eq_of_lt hback, Nat.mod_mod]
  exact or_halves x.toNat 32

/-! ## Bytes of an integer -/

/-- The two bytes of a 16-bit integer. -/
def bytes16 (x : UInt16) : List UInt8 := [(x >>> 8).toUInt8, (x &&& 0xff).toUInt8]

/-- The four bytes of a 32-bit integer. -/
def bytes32 (x : UInt32) : List UInt8 :=
  bytes16 (x >>> 16).toUInt16 ++ bytes16 (x &&& 0xffff).toUInt16

/-- The eight bytes of a 64-bit integer. -/
def bytes64 (x : UInt64) : List UInt8 :=
  bytes32 (x >>> 32).toUInt32 ++ bytes32 (x &&& 0xffffffff).toUInt32

@[simp] theorem length_bytes16 (x : UInt16) : (bytes16 x).length = 2 := rfl

@[simp] theorem length_bytes64 (x : UInt64) : (bytes64 x).length = 8 := rfl

/-- The 16-bit integer at an address. -/
def load16 (m : Memory) (i : Nat) : UInt16 := (m i).toUInt16 <<< 8 ||| (m (i + 1)).toUInt16

/-- The 32-bit integer at an address. -/
def load32 (m : Memory) (i : Nat) : UInt32 :=
  (load16 m i).toUInt32 <<< 16 ||| (load16 m (i + 2)).toUInt32

/-- The 64-bit integer at an address. -/
def load64 (m : Memory) (i : Nat) : UInt64 :=
  (load32 m i).toUInt64 <<< 32 ||| (load32 m (i + 4)).toUInt64

section Load

variable {m : Memory} {i : Nat}

theorem load16_of_read {x : UInt16} (h : m.read i 2 = bytes16 x) : load16 m i = x := by
  rw [Memory.read_succ, Memory.read_succ, Memory.read_zero, bytes16] at h
  injection h with hhi h
  injection h with hlo
  rw [load16, hhi, hlo, halves16]

/-- A block that holds two lists one after the other holds each of them. -/
theorem read_append {a b : Nat} {xs ys : List UInt8} (h : m.read i (a + b) = xs ++ ys)
    (ha : xs.length = a) : m.read i a = xs ∧ m.read (i + a) b = ys := by
  rw [Memory.read_add] at h
  exact List.append_inj h (by rw [Memory.length_read, ha])

theorem load32_of_read {x : UInt32} (h : m.read i 4 = bytes32 x) : load32 m i = x := by
  obtain ⟨hhi, hlo⟩ := read_append (a := 2) (b := 2) h rfl
  rw [load32, load16_of_read hhi, load16_of_read hlo, halves32]

theorem load64_of_read {x : UInt64} (h : m.read i 8 = bytes64 x) : load64 m i = x := by
  obtain ⟨hhi, hlo⟩ := read_append (a := 4) (b := 4) h rfl
  rw [load64, load32_of_read hhi, load32_of_read hlo, halves64]

section Congr

variable {m' : Memory} {n : Nat} (h : ∀ j, j < n → m j = m' j)
include h

/-- An integer is the same in memories that start with the same bytes. -/
theorem load16_congr (hi : i + 2 ≤ n) : load16 m i = load16 m' i := by
  rw [load16, load16, h i (by omega), h (i + 1) (by omega)]

theorem load32_congr (hi : i + 4 ≤ n) : load32 m i = load32 m' i := by
  rw [load32, load32, load16_congr h (Nat.le_of_add_right_le (k := 2) hi), load16_congr h hi]

theorem load64_congr (hi : i + 8 ≤ n) : load64 m i = load64 m' i := by
  rw [load64, load64, load32_congr h (Nat.le_of_add_right_le (k := 4) hi), load32_congr h hi]

end Congr

end Load

/-! ## Decoders -/

namespace Decoder

/-- `decoder<validate, std::uint8_t>::r` -/
def uint8 (validate : Bool) (size : Nat) (msg : Memory) (offset : Nat) : Except Failure UInt8 := do
  checkOffset validate "std::uint8_t" size offset 1
  return msg offset

/-- `decoder<validate, std::uint16_t>::r` -/
def uint16 (validate : Bool) (size : Nat) (msg : Memory) (offset : Nat) :
    Except Failure UInt16 := do
  checkOffset validate "std::uint16_t" size offset 2
  let hi ← uint8 false size msg offset
  let lo ← uint8 false size msg (offset + 1)
  return hi.toUInt16 <<< 8 ||| lo.toUInt16

/-- `decoder<validate, std::uint32_t>::r` -/
def uint32 (validate : Bool) (size : Nat) (msg : Memory) (offset : Nat) :
    Except Failure UInt32 := do
  checkOffset validate "std::uint32_t" size offset 4
  let hi ← uint16 false size msg offset
  let lo ← uint16 false size msg (offset + 2)
  return hi.toUInt32 <<< 16 ||| lo.toUInt32

/-- `decoder<validate, std::uint64_t>::r` -/
def uint64 (validate : Bool) (size : Nat) (msg : Memory) (offset : Nat) :
    Except Failure UInt64 := do
  -- the message of the exception names the 32-bit type in the source
  checkOffset validate "std::uint32_t" size offset 8
  let hi ← uint32 false size msg offset
  let lo ← uint32 false size msg (offset + 4)
  return hi.toUInt64 <<< 32 ||| lo.toUInt64

section Spec

variable (validate : Bool) {size offset : Nat} (msg : Memory)

theorem uint16_ok (h : offset + 2 ≤ size) :
    uint16 validate size msg offset = .ok (load16 msg offset) := by
  simp only [uint16, checkOffset_ok validate _ Nat.two_pos h]
  rfl

theorem uint16_error (h : size < offset + 2) :
    uint16 true size msg offset = .error (.invalidOffset "std::uint16_t" size offset 2) := by
  simp only [uint16, checkOffset_error _ h]
  rfl

theorem uint64_ok (h : offset + 8 ≤ size) :
    uint64 validate size msg offset = .ok (load64 msg offset) := by
  simp only [uint64, checkOffset_ok validate _ (by decide : 0 < 8) h]
  rfl

theorem uint64_error (h : size < offset + 8) :
    uint64 true size msg offset = .error (.invalidOffset "std::uint32_t" size offset 8) := by
  simp only [uint64, checkOffset_error _ h]
  rfl

end Spec

end Decoder

/-! ## Encoders -/

namespace FieldWriter

/-- `encoder<validate, std::uint8_t>::w`, for a buffer at the address `start` -/
def uint8 (validate : Bool) (size start offset : Nat) (x : UInt8) :
    EStateM Failure Memory Unit := do
  liftExcept (checkOffset validate "encode std::uint8_t" size offset 1)
  modify fun msg => msg.write (start + offset) [x]

/-- `encoder<validate, std::uint16_t>::w` -/
def uint16 (validate : Bool) (size start offset : Nat) (x : UInt16) :
    EStateM Failure Memory Unit := do
  liftExcept (checkOffset validate "encode std::uint16_t" size offset 2)
  uint8 false size start offset (x >>> 8).toUInt8
  uint8 false size start (offset + 1) (x &&& 0xff).toUInt8

/-- `encoder<validate, std::uint32_t>::w` -/
def uint32 (validate : Bool) (size start offset : Nat) (x : UInt32) :
    EStateM Failure Memory Unit := do
  liftExcept (checkOffset validate "encode std::uint32_t" size offset 4)
  uint16 false size start offset (x >>> 16).toUInt16
  uint16 false size start (offset + 2) (x &&& 0xffff).toUInt16

/-- `encoder<validate, std::uint64_t>::w` -/
def uint64 (validate : Bool) (size start offset : Nat) (x : UInt64) :
    EStateM Failure Memory Unit := do
  liftExcept (checkOffset validate "encode std::uint32_t" size offset 8)
  uint32 false size start offset (x >>> 32).toUInt32
  uint32 false size start (offset + 4) (x &&& 0xffffffff).toUInt32

section Run

variable (size start offset : Nat) (m : Memory)

/-- What an encoder leaves: the memory that it computes, and the one from before when it raises. -/
def written (m : Memory) : Except Failure Memory → EStateM.Result Failure Memory Unit
  | .ok m' => .ok () m'
  | .error e => .error e m

/-- An encoder checks its field first, and what it writes then raises nothing. -/
theorem checked_run (check : Except Failure Unit) {write : EStateM Failure Memory Unit} {m m' : Memory}
    (h : write.run m = .ok () m') :
    EStateM.run (do liftExcept check; write) m = written m (check.map fun _ => m') := by
  cases check with
  | ok u => exact h
  | error e => rfl

theorem uint8_run (validate : Bool) (x : UInt8) : (uint8 validate size start offset x).run m =
    written m ((checkOffset validate "encode std::uint8_t" size offset 1).map fun _ =>
      m.write (start + offset) [x]) :=
  checked_run _ rfl

theorem uint16_run (validate : Bool) (x : UInt16) : (uint16 validate size start offset x).run m =
    written m ((checkOffset validate "encode std::uint16_t" size offset 2).map fun _ =>
      m.write (start + offset) (bytes16 x)) := by
  apply checked_run
  have hwrite := Memory.write_append m (start + offset) [(x >>> 8).toUInt8] [(x &&& 0xff).toUInt8]
  rw [EStateM.run_bind, uint8_run]
  exact (uint8_run ..).trans (congrArg (EStateM.Result.ok ()) hwrite.symm)

theorem uint32_run (validate : Bool) (x : UInt32) : (uint32 validate size start offset x).run m =
    written m ((checkOffset validate "encode std::uint32_t" size offset 4).map fun _ =>
      m.write (start + offset) (bytes32 x)) := by
  apply checked_run
  rw [EStateM.run_bind, uint16_run, bytes32, Memory.write_append]
  exact uint16_run ..

theorem uint64_run (validate : Bool) (x : UInt64) : (uint64 validate size start offset x).run m =
    written m ((checkOffset validate "encode std::uint32_t" size offset 8).map fun _ =>
      m.write (start + offset) (bytes64 x)) := by
  apply checked_run
  rw [EStateM.run_bind, uint32_run, bytes64, Memory.write_append]
  exact uint32_run ..

end Run

end FieldWriter

/-! ### The memory that an encoder returns -/

namespace Encoder

/-- The memory after a computation that writes to it -/
def encoded (write : EStateM Failure Memory Unit) (msg : Memory) : Except Failure Memory :=
  match write.run msg with
  | .ok _ msg => .ok msg
  | .error e _ => .error e

theorem encoded_of_written {write : EStateM Failure Memory Unit} {msg : Memory}
    {result : Except Failure Memory} (h : write.run msg = FieldWriter.written msg result) :
    encoded write msg = result := by
  rw [encoded, h]
  cases result <;> rfl

/-- `encoder<validate, std::uint16_t>::w` -/
def uint16 (validate : Bool) (size : Nat) (msg : Memory) (start offset : Nat) (x : UInt16) :
    Except Failure Memory :=
  encoded (FieldWriter.uint16 validate size start offset x) msg

/-- `encoder<validate, std::uint64_t>::w` -/
def uint64 (validate : Bool) (size : Nat) (msg : Memory) (start offset : Nat) (x : UInt64) :
    Except Failure Memory :=
  encoded (FieldWriter.uint64 validate size start offset x) msg

section Spec

variable {size : Nat} (msg : Memory) (start : Nat) {offset : Nat}

theorem uint16_ok (validate : Bool) (h : offset + 2 ≤ size) (x : UInt16) :
    uint16 validate size msg start offset x = .ok (msg.write (start + offset) (bytes16 x)) := by
  rw [uint16, encoded_of_written (FieldWriter.uint16_run ..), checkOffset_ok _ _ Nat.two_pos h]
  rfl

theorem uint16_error (h : size < offset + 2) (x : UInt16) :
    uint16 true size msg start offset x =
      .error (.invalidOffset "encode std::uint16_t" size offset 2) := by
  rw [uint16, encoded_of_written (FieldWriter.uint16_run ..), checkOffset_error _ h]
  rfl

theorem uint64_ok (validate : Bool) (h : offset + 8 ≤ size) (x : UInt64) :
    uint64 validate size msg start offset x = .ok (msg.write (start + offset) (bytes64 x)) := by
  rw [uint64, encoded_of_written (FieldWriter.uint64_run ..), checkOffset_ok _ _ (by decide) h]
  rfl

end Spec

end Encoder

end JayBeams.Itch5
