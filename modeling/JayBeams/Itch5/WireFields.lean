import JayBeams.Itch5.MessageHeader
import JayBeams.Itch5.ShortStringField
import JayBeams.Library.Layout

/-!
# Fields on the wire

The decoders of the fields that are not plain integers, and for each kind of field its place in a
layout: the test that its decoder makes before it uses the bytes. A decoder with validation is its
test followed by the value, which the `_eq` lemmas say; every test looks first whether the field lies
inside the message, except that of `char_list_field`, which decodes its byte without validation.
-/

set_option autoImplicit false

namespace JayBeams.Itch5

open Bytes

/-! ## Decoders -/

/-- The values `V...` of a `char_list_field`: some of them can be sent as a byte, and NUL is not one of
them. -/
structure CharList where
  values : List Char
  exists_byte : ∃ a ∈ values, a.toNat < 256
  ne_nul : ∀ a ∈ values, a.toNat ≠ 0

/-- `char_list_field<V...>` -/
structure CharListField (chars : CharList) where
  asInt : Int
  deriving DecidableEq, Repr

/-- `char_list_validator<validate, V...>` -/
def charListValidator (validate : Bool) : List Char → Int → Except Failure Unit
  | [], x => if validate then .error (.charListValidationFailed x) else .ok ()
  | a :: values, x =>
      if validate then
        if (a.toNat : Int) = x then .ok () else charListValidator validate values x
      else .ok ()

/-- `seconds_field` -/
structure SecondsField where
  intSeconds : Int
  deriving DecidableEq, Repr

/-- `check_seconds_field_range` -/
def checkSecondsFieldRange (validate : Bool) (t : SecondsField) : Except Failure Unit :=
  if validate then
    if t.intSeconds < 24 * 3600 then .ok () else .error (.secondsRange t.intSeconds)
  else .ok ()

namespace Decoder

/-- `decoder<validate, char_list_field<V...>>::r` -/
def charListField (chars : CharList) (validate : Bool) (size : Nat) (buf : Memory)
    (offset : Nat) : Except Failure (CharListField chars) := do
  -- the byte is decoded without validation in either case
  let x ← uint8 false size buf offset
  let tmp : CharListField chars := ⟨x.toNat⟩
  charListValidator validate chars.values tmp.asInt
  return tmp

/-- `decoder<validate, seconds_field>::r` -/
def secondsField (validate : Bool) (size : Nat) (buf : Memory) (offset : Nat) :
    Except Failure SecondsField := do
  let ts ← uint32 validate size buf offset
  -- the constructor takes an `int`
  let tmp : SecondsField := ⟨int32 ts.toNat⟩
  checkSecondsFieldRange validate tmp
  return tmp

/-- `decoder<validate, price4_t>::r` -/
def price4 (validate : Bool) (size : Nat) (buf : Memory) (offset : Nat) : Except Failure Nat := do
  let x ← uint32 validate size buf offset
  return x.toNat

/-- `decoder<validate, price8_t>::r` -/
def price8 (validate : Bool) (size : Nat) (buf : Memory) (offset : Nat) : Except Failure Nat := do
  let x ← uint64 validate size buf offset
  return x.toNat

/-- A 32-bit field that the message holds as an `int`. -/
def int (validate : Bool) (size : Nat) (buf : Memory) (offset : Nat) : Except Failure Int := do
  let x ← uint32 validate size buf offset
  return int32 x.toNat

end Decoder

/-! ## Integers of equal bytes -/

section LoadEq

variable {m m' : Memory} {i j : Nat}

/-- Equal bytes spell equal integers. -/
theorem load16_eq_of_read (h : m.read i 2 = m'.read j 2) : load16 m i = load16 m' j := by
  simp only [Memory.read_succ, Memory.read_zero, List.cons.injEq, and_true] at h
  rw [load16, load16, h.1, h.2]

/-- Blocks that are equal are equal up to a length and after it. -/
theorem read_add_inj {a b : Nat} (h : m.read i (a + b) = m'.read j (a + b)) :
    m.read i a = m'.read j a ∧ m.read (i + a) b = m'.read (j + a) b := by
  rw [Memory.read_add, Memory.read_add] at h
  exact List.append_inj h (by rw [Memory.length_read, Memory.length_read])

/-- Equal bytes spell equal integers. -/
theorem load32_eq_of_read (h : m.read i 4 = m'.read j 4) : load32 m i = load32 m' j := by
  obtain ⟨hhi, hlo⟩ := read_add_inj (a := 2) (b := 2) h
  rw [load32, load32, load16_eq_of_read hhi, load16_eq_of_read hlo]

/-- The bytes of a block, as a memory of their own. -/
theorem read_ofList_read (m : Memory) (i n : Nat) :
    (Memory.ofList (m.read i n)).read 0 n = m.read i n := by
  have h := Memory.read_ofList (m.read i n)
  rwa [Memory.length_read] at h

end LoadEq

/-! ## Fields of a layout -/

/-- The class of the exceptions of all field tests but those of ranges. -/
abbrev fieldErrorClass : Option ExceptionClass := some .runtimeError

/-- A field of a message on the wire. -/
abbrev WireField := Field Failure.exceptionClass fieldErrorClass

/-- A field whose decoder looks whether it lies inside the message. -/
def guardedField (msg : String) (n : Nat) (validate : List UInt8 → Except Failure Unit)
    (hn : 0 < n) (offset : Nat) : WireField where
  offset := offset
  width := n
  outside := some fun size => .invalidOffset msg size offset n
  validate := validate
  width_pos := hn
  kind_outside := by
    intro e h size
    cases h
    rfl
  width_unguarded := fun h => by cases h
  kind_invalid := fun h => by cases h
  exists_valid := fun h => by cases h
  exists_invalid := fun h => by cases h

/-- `std::uint8_t` -/
def uint8Field : Nat → WireField := guardedField "std::uint8_t" 1 (fun _ => .ok ()) (Nat.succ_pos 0)

/-- `std::uint16_t` -/
def uint16Field : Nat → WireField := guardedField "std::uint16_t" 2 (fun _ => .ok ()) (Nat.succ_pos 1)

/-- `std::uint32_t` -/
def uint32Field : Nat → WireField := guardedField "std::uint32_t" 4 (fun _ => .ok ()) (Nat.succ_pos 3)

/-- `std::uint64_t`; the text of its exception names the 32-bit type in the source. -/
def uint64Field : Nat → WireField := guardedField "std::uint32_t" 8 (fun _ => .ok ()) (Nat.succ_pos 7)

/-- `timestamp`, whose range is checked -/
def timestampField : Nat → WireField :=
  guardedField "timestamp" 6
    (fun bs => checkTimestampRange true
      ((load16 (Memory.ofList bs) 0).toUInt64 <<< 32 |||
        (load32 (Memory.ofList bs) 2).toUInt64).toNat)
    (by decide)

/-- `seconds_field`, whose range is checked -/
def secondsLayoutField : Nat → WireField :=
  guardedField "std::uint32_t" 4
    (fun bs => checkSecondsFieldRange true ⟨int32 (load32 (Memory.ofList bs) 0).toNat⟩)
    (Nat.succ_pos 3)

/-- `short_string_field`, whose value is checked without its padding -/
def stringField (valueValidator : List UInt8 → Bool) (n : Nat) (offset : Nat)
    (hn : 0 < n := by decide) : WireField :=
  guardedField "short_string_field<>" n
    (fun bs =>
      let tmp : ShortStringField n := ShortStringField.assign (Memory.ofList bs) 0
      if valueValidator tmp.cStr then .ok ()
      else .error (.validationFailed "short_string_field<>" tmp.cStr))
    hn offset

/-- The validator accepts the characters that are listed. -/
theorem charListValidator_ok_iff (values : List Char) (x : Int) :
    charListValidator true values x = .ok () ↔ ∃ a ∈ values, (a.toNat : Int) = x := by
  induction values with
  | nil => simp [charListValidator]
  | cons a values ih =>
      rw [List.exists_mem_cons_iff, ← ih, charListValidator, if_pos rfl]
      split
      · next h => simp [h]
      · next h => simp [h]

/-- It refuses all others with the same exception. -/
theorem charListValidator_error {values : List Char} {x : Int}
    (h : ¬ ∃ a ∈ values, (a.toNat : Int) = x) :
    charListValidator true values x = .error (.charListValidationFailed x) := by
  induction values with
  | nil => rfl
  | cons a values ih =>
      rw [List.exists_mem_cons_iff, not_or] at h
      rw [charListValidator, if_pos rfl, if_neg h.1]
      exact ih h.2

/-- The field of a `char_list_field`, which is not guarded. -/
def charField (chars : CharList) (offset : Nat) : WireField where
  offset := offset
  width := 1
  outside := none
  validate := fun bs => charListValidator true chars.values (bs.headD 0).toNat
  width_pos := Nat.one_pos
  kind_outside := fun e h => by cases h
  width_unguarded := fun _ => rfl
  kind_invalid := by
    intro _ bs e he
    by_cases hlisted : ∃ a ∈ chars.values, (a.toNat : Int) = (bs.headD 0).toNat
    · have hok := (charListValidator_ok_iff _ _).2 hlisted
      exact absurd (hok.symm.trans he) (fun h => by cases h)
    · cases (charListValidator_error hlisted).symm.trans he
      rfl
  exists_valid := by
    obtain ⟨a, ha, hlt⟩ := chars.exists_byte
    intro _
    refine ⟨UInt8.ofNat a.toNat, (charListValidator_ok_iff _ _).2 ⟨a, ha, ?_⟩⟩
    rw [List.headD_cons, UInt8.toNat_ofNat', Nat.mod_eq_of_lt hlt]
  exists_invalid := by
    intro _
    refine ⟨0, _, charListValidator_error ?_⟩
    rintro ⟨a, ha, hzero⟩
    exact chars.ne_nul a ha (Int.ofNat_inj.1 hzero)

section Check

variable {size : Nat} {m : Memory} {offset : Nat}

/-- With validation a field is accepted exactly where it lies inside the buffer. -/
theorem checkOffset_true (msg : String) {n : Nat} (hn : 0 < n) :
    checkOffset true msg size offset n =
      if offset + n ≤ size then .ok () else .error (.invalidOffset msg size offset n) := by
  split
  · next h => exact checkOffset_ok true msg hn h
  · next h => exact checkOffset_error msg (Nat.not_le.1 h)

/-- The test of a guarded field, as its decoder makes it. -/
theorem check_guardedField (msg : String) {n : Nat} (validate : List UInt8 → Except Failure Unit)
    (hn : 0 < n) : (guardedField msg n validate hn offset).check size m =
      (do checkOffset true msg size offset n; validate (m.read offset n)) := by
  rw [checkOffset_true msg hn]
  by_cases h : offset + n ≤ size
  · have hin : (guardedField msg n validate hn offset).stop ≤ size := h
    rw [Field.check_inside hin, if_pos h]
    rfl
  · have hout : size < (guardedField msg n validate hn offset).stop := Nat.not_le.1 h
    rw [Field.check_outside rfl hout, if_neg h]
    rfl

/-- A field for which any bytes will do is only looked for. -/
theorem check_plainField (msg : String) {n : Nat} (hn : 0 < n) :
    (guardedField msg n (fun _ => .ok ()) hn offset).check size m =
      checkOffset true msg size offset n := by
  rw [check_guardedField msg]
  cases checkOffset true msg size offset n <;> rfl

/-! ## Decoders as tests followed by values -/

namespace Decoder

/-- The validated decoder of a byte is the test of its field and then the byte. It is the same with the
other decoders. -/
@[simp] theorem uint8_eq : uint8 true size m offset =
    (do (uint8Field offset).check size m; return m offset) := by
  rw [uint8Field, check_plainField, uint8]

@[simp] theorem uint16_eq : uint16 true size m offset =
    (do (uint16Field offset).check size m; return load16 m offset) := by
  rw [uint16Field, check_plainField, uint16]
  rfl

@[simp] theorem uint32_eq : uint32 true size m offset =
    (do (uint32Field offset).check size m; return load32 m offset) := by
  rw [uint32Field, check_plainField, uint32]
  rfl

@[simp] theorem uint64_eq : uint64 true size m offset =
    (do (uint64Field offset).check size m; return load64 m offset) := by
  rw [uint64Field, check_plainField, uint64]
  rfl

@[simp] theorem timestamp_eq : timestamp true size m offset =
    (do (timestampField offset).check size m; return nanoseconds m offset) := by
  have hbytes := read_ofList_read m offset 6
  obtain ⟨hhi, hlo⟩ := read_add_inj (a := 2) (b := 4) hbytes
  have hhi' : uint16 false size m offset = pure (load16 m offset) := rfl
  have hlo' : uint32 false size m (offset + 2) = pure (load32 m (offset + 2)) := rfl
  rw [timestampField, check_guardedField, load16_eq_of_read hhi,
    load32_eq_of_read hlo]
  simp only [timestamp, hhi', hlo', pure_bind, bind_assoc, nanoseconds]

@[simp] theorem secondsField_eq : secondsField true size m offset =
    (do (secondsLayoutField offset).check size m; return ⟨int32 (load32 m offset).toNat⟩) := by
  rw [secondsLayoutField, check_guardedField,
    load32_eq_of_read (read_ofList_read m offset 4), secondsField, uint32_eq,
    uint32Field, check_plainField]
  simp only [pure_bind, bind_assoc]

@[simp] theorem price4_eq : price4 true size m offset =
    (do (uint32Field offset).check size m; return (load32 m offset).toNat) := by
  rw [price4, uint32_eq, bind_assoc]
  rfl

@[simp] theorem price8_eq : price8 true size m offset =
    (do (uint64Field offset).check size m; return (load64 m offset).toNat) := by
  rw [price8, uint64_eq, bind_assoc]
  rfl

@[simp] theorem int_eq : int true size m offset =
    (do
      (uint32Field offset).check size m
      return int32 (load32 m offset).toNat) := by
  rw [int, uint32_eq, bind_assoc]
  rfl

@[simp] theorem charListField_eq (chars : CharList) : charListField chars true size m offset =
    (do (charField chars offset).check size m; return ⟨(m offset).toNat⟩) := by
  have hcheck : (charField chars offset).check size m =
      charListValidator true chars.values (m offset).toNat := by
    rw [Field.check_unguarded rfl, Field.bytes_single rfl]
    rfl
  rw [hcheck]
  rfl

end Decoder

/-- The decoder of a string tests its field and copies the bytes. -/
@[simp] theorem ShortStringField.decode_eq (valueValidator : List UInt8 → Bool) {n : Nat} (hn : 0 < n) :
    (decode valueValidator true size m offset : Except Failure (ShortStringField n)) =
      (do (stringField valueValidator n offset hn).check size m; return assign m offset) := by
  have hassign : (assign (Memory.ofList (m.read offset n)) 0 : ShortStringField n) =
      assign m offset := by
    simp only [assign, read_ofList_read]
  rw [stringField, check_guardedField]
  simp only [hassign, decode, Bool.true_and]
  cases checkOffset true "short_string_field<>" size offset n with
  | error e => rfl
  | ok u =>
      by_cases h : valueValidator (assign m offset : ShortStringField n).cStr = true
      · simp [h]
        rfl
      · simp [h]
        rfl

end Check

end JayBeams.Itch5
