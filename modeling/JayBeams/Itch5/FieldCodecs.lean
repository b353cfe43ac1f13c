import JayBeams.Itch5.WireFields

/-!
# Encoding and decoding fields

An encoder raises exactly when its field does not lie inside the buffer or its value cannot be sent, and
then no byte changes; otherwise the decoder reads the value back, and no byte outside the field changes
(`Codec.Lawful`). Sizes are those of buffers in memory, where the end of a field does not wrap around.

The integers meet the law. The check of a timestamp looks at its upper bound only, so that the encoder
writes the low 48 bits of a negative one, and the same check of a number of seconds lets through what is
negative as an `int` (`codecs_lawful`).
-/

set_option autoImplicit false

namespace JayBeams.Itch5

open Bytes

/-- The check in `std::size_t` is the one of the model for a buffer that does not reach up to the last
addresses, where the end of a field would wrap around. -/
theorem checkOffset_sizeT {size offset n : Nat} (h : size + n ≤ 18446744073709551616) :
    (0 < n ∧ offset < size ∧ (offset + n) % 18446744073709551616 ≤ size) ↔
      (0 < n ∧ offset < size ∧ offset + n ≤ size) := by
  omega

/-! ## The encoder of a timestamp -/

namespace FieldWriter

/-- `encoder<validate, timestamp>::w` -/
def timestamp (validate : Bool) (size start offset : Nat) (x : Int) :
    EStateM Failure Memory Unit := do
  liftExcept (checkOffset validate "encoder<timestamp>" size offset 6)
  liftExcept (checkTimestampRange validate x)
  let nanos := UInt64.ofInt x
  let hi := (nanos >>> 32).toUInt16
  let lo := (nanos &&& 0xFFFFFFFF).toUInt32
  uint16 false size start offset hi
  uint32 false size start (offset + 2) lo

section Run

variable (size start offset : Nat) (m : Memory)

/-- The bytes of a timestamp. -/
def timestampBytes (x : Int) : List UInt8 :=
  bytes16 (UInt64.ofInt x >>> 32).toUInt16 ++ bytes32 (UInt64.ofInt x &&& 0xFFFFFFFF).toUInt32

/-- A timestamp below the upper bound is written. -/
theorem timestamp_run {x : Int} (hfits : offset + 6 ≤ size) (hx : x < 24 * 3600 * 1000000000) :
    (timestamp true size start offset x).run m =
      .ok () (m.write (start + offset) (timestampBytes x)) := by
  have hoffset := checkOffset_ok true "encoder<timestamp>" (by decide : 0 < 6) hfits
  have hrange : checkTimestampRange true x = .ok () := by
    rw [checkTimestampRange, if_pos rfl, if_pos hx]
  rw [timestampBytes, Memory.write_append]
  simp only [timestamp, hoffset, hrange, EStateM.run_bind, liftExcept_run_ok rfl, uint16_run]
  exact uint32_run ..

/-- Any other timestamp, and one whose field does not fit, is refused. -/
theorem timestamp_refused {x : Int} (h : offset + 6 ≤ size → 24 * 3600 * 1000000000 ≤ x) :
    ∃ e, (timestamp true size start offset x).run m = .error e m := by
  rcases Nat.lt_or_ge size (offset + 6) with hout | hfits
  · refine ⟨.invalidOffset "encoder<timestamp>" size offset 6, ?_⟩
    simp only [timestamp, checkOffset_error _ hout]
    rfl
  · have hoffset := checkOffset_ok true "encoder<timestamp>" (by decide : 0 < 6) hfits
    have hrange : checkTimestampRange true x = .error (.timestampRange x) := by
      rw [checkTimestampRange, if_pos rfl, if_neg (Int.not_lt.2 (h hfits))]
    refine ⟨.timestampRange x, ?_⟩
    simp only [timestamp, hoffset, hrange, EStateM.run_bind, liftExcept_run_ok rfl]
    rfl

end Run

end FieldWriter

/-! ## The law of a codec -/

/-- The buffer at an address of the memory. -/
def bufferAt (m : Memory) (start : Nat) : Memory := fun i => m (start + i)

/-- A field: the number of its bytes, the encoder and the decoder, both with validation, and the values
that can be sent. -/
structure Codec (α : Type) where
  length : Nat
  w : Nat → Nat → Nat → α → EStateM Failure Memory Unit
  r : Nat → Memory → Nat → Except Failure α
  Representable : α → Prop

namespace Codec

/-- The encoder raises when the field does not lie inside the buffer or the value cannot be sent, and
changes no byte then. Otherwise the decoder reads the value back, and no byte outside the field has
changed. -/
def Lawful {α : Type} (c : Codec α) (size start offset : Nat) (m : Memory) (x : α) : Prop :=
  match (c.w size start offset x).run m with
  | .error _ m' => ¬ (offset + c.length ≤ size ∧ c.Representable x) ∧ m' = m
  | .ok _ m' =>
      (offset + c.length ≤ size ∧ c.Representable x) ∧
        c.r size (bufferAt m' start) offset = .ok x ∧
        ∀ i, i < start + offset ∨ start + offset + c.length ≤ i → m' i = m i

section Lawful

variable {α : Type} {c : Codec α} {size start offset : Nat} {m : Memory} {x : α}

/-- An encoder that writes the bytes of the field. -/
theorem lawful_of_written {bs : List UInt8} (hlen : bs.length = c.length)
    (hfits : offset + c.length ≤ size) (hx : c.Representable x)
    (hw : (c.w size start offset x).run m = .ok () (m.write (start + offset) bs))
    (hr : c.r size (bufferAt (m.write (start + offset) bs) start) offset = .ok x) :
    c.Lawful size start offset m x := by
  rw [Lawful, hw]
  refine ⟨⟨hfits, hx⟩, hr, ?_⟩
  rintro i (hi | hi)
  · exact Memory.write_of_lt m _ bs hi
  · exact Memory.write_of_ge m _ bs (by rwa [hlen])

/-- An encoder that refuses the value. -/
theorem lawful_of_refused (h : ¬ (offset + c.length ≤ size ∧ c.Representable x)) {e : Failure}
    (hw : (c.w size start offset x).run m = .error e m) : c.Lawful size start offset m x := by
  rw [Lawful, hw]
  exact ⟨h, rfl⟩

/-- A value that cannot be sent and is written all the same. -/
theorem not_lawful_of_written (h : ¬ c.Representable x) {m' : Memory}
    (hw : (c.w size start offset x).run m = .ok () m') : ¬ c.Lawful size start offset m x := by
  rw [Lawful, hw]
  rintro ⟨⟨-, hx⟩, -⟩
  exact h hx

/-- An encoder that checks its field and writes bytes that the decoder reads back, for values that can
all be sent. -/
theorem lawful_of_checked {what : String} {bs : List UInt8} (hlen : bs.length = c.length)
    (hpos : 0 < c.length) (hx : c.Representable x)
    (hrun : (c.w size start offset x).run m = FieldWriter.written m
      ((checkOffset true what size offset c.length).map fun _ => m.write (start + offset) bs))
    (hr : offset + c.length ≤ size →
      c.r size (bufferAt (m.write (start + offset) bs) start) offset = .ok x) :
    c.Lawful size start offset m x := by
  rcases Nat.lt_or_ge size (offset + c.length) with hout | hfits
  · rw [checkOffset_error _ hout] at hrun
    exact lawful_of_refused (fun h => Nat.not_le.2 hout h.1) hrun
  · rw [checkOffset_ok _ _ hpos hfits] at hrun
    exact lawful_of_written hlen hfits hx hrun (hr hfits)

end Lawful

end Codec

/-! ## Integers -/

/-- `std::uint8_t` -/
def uint8Codec : Codec UInt8 := ⟨1, FieldWriter.uint8 true, Decoder.uint8 true, fun _ => True⟩

/-- `std::uint16_t` -/
def uint16Codec : Codec UInt16 := ⟨2, FieldWriter.uint16 true, Decoder.uint16 true, fun _ => True⟩

/-- `std::uint32_t` -/
def uint32Codec : Codec UInt32 := ⟨4, FieldWriter.uint32 true, Decoder.uint32 true, fun _ => True⟩

/-- `std::uint64_t` -/
def uint64Codec : Codec UInt64 := ⟨8, FieldWriter.uint64 true, Decoder.uint64 true, fun _ => True⟩

section Integers

variable (size start offset : Nat) (m : Memory)

theorem uint8Codec_lawful (x : UInt8) : uint8Codec.Lawful size start offset m x := by
  refine Codec.lawful_of_checked rfl Nat.one_pos trivial
    (FieldWriter.uint8_run size start offset m true x) ?_
  intro (hfits : offset + 1 ≤ size)
  change Decoder.uint8 true size _ offset = _
  simp only [Decoder.uint8, checkOffset_ok true _ Nat.one_pos hfits]
  exact congrArg Except.ok (Memory.write_add m (start + offset) [x] Nat.one_pos)

theorem uint16Codec_lawful (x : UInt16) : uint16Codec.Lawful size start offset m x := by
  refine Codec.lawful_of_checked rfl Nat.two_pos trivial
    (FieldWriter.uint16_run size start offset m true x) ?_
  intro (hfits : offset + 2 ≤ size)
  change Decoder.uint16 true size _ offset = _
  rw [Decoder.uint16_ok true _ hfits]
  exact congrArg Except.ok (load16_of_read (Memory.read_write_self m (start + offset) (bytes16 x)))

theorem uint32Codec_lawful (x : UInt32) : uint32Codec.Lawful size start offset m x := by
  refine Codec.lawful_of_checked rfl (by decide) trivial
    (FieldWriter.uint32_run size start offset m true x) ?_
  intro (hfits : offset + 4 ≤ size)
  change Decoder.uint32 true size _ offset = _
  simp only [Decoder.uint32, checkOffset_ok true _ (by decide : 0 < 4) hfits]
  exact congrArg Except.ok (load32_of_read (Memory.read_write_self m (start + offset) (bytes32 x)))

theorem uint64Codec_lawful (x : UInt64) : uint64Codec.Lawful size start offset m x := by
  refine Codec.lawful_of_checked rfl (by decide) trivial
    (FieldWriter.uint64_run size start offset m true x) ?_
  intro (hfits : offset + 8 ≤ size)
  change Decoder.uint64 true size _ offset = _
  rw [Decoder.uint64_ok true _ hfits]
  exact congrArg Except.ok (load64_of_read (Memory.read_write_self m (start + offset) (bytes64 x)))

end Integers

/-! ## Times of the day -/

/-- The nanoseconds of a day. -/
def dayNanoseconds : Int := 24 * 3600 * 1000000000

/-- The seconds of a day. -/
def daySeconds : Int := 24 * 3600

/-- `timestamp` -/
def timestampCodec : Codec Int where
  length := 6
  w := FieldWriter.timestamp true
  r := Decoder.timestamp true
  Representable := fun x => 0 ≤ x ∧ x < dayNanoseconds

/-- A decoder of a time of the day accepts nothing but what lies in the day, and all of that. -/
structure DecodesDay (day : Int) (fits : Prop) (wire : Int) (r : Except Failure Int) : Prop where
  inDay : ∀ x, r = .ok x → 0 ≤ x ∧ x < day
  accepts : fits → wire < day → r = .ok wire

/-- The high 16 bits and the low 32 bits of a number of 48 bits. -/
theorem halves48 {x : UInt64} (h : x.toNat < 2 ^ 48) :
    (x >>> 32).toUInt16.toUInt64 <<< 32 ||| (x &&& 0xFFFFFFFF).toUInt32.toUInt64 = x := by
  apply UInt64.toNat_inj.1
  have hhi : x.toNat >>> 32 < 2 ^ 16 := by
    rw [Nat.shiftRight_eq_div_pow]
    omega
  have hback : (x.toNat >>> 32) <<< 32 < 2 ^ 64 := by
    rw [Nat.shiftLeft_eq, Nat.shiftRight_eq_div_pow]
    omega
  have hlo : x.toNat &&& 4294967295 = x.toNat % 2 ^ 32 :=
    Nat.and_two_pow_sub_one_eq_mod x.toNat 32
  simp only [UInt64.toNat_or, UInt64.toNat_shiftLeft, UInt64.toNat_shiftRight, UInt64.toNat_and,
    UInt16.toNat_toUInt64, UInt64.toNat_toUInt16, UInt32.toNat_toUInt64, UInt64.toNat_toUInt32,
    UInt64.reduceToNat, Nat.reduceMod, hlo]
  rw [Nat.mod_eq_of_lt hhi, Nat.mod_eq_of_lt hback, Nat.mod_mod]
  exact or_halves x.toNat 32

section Times

variable (size start offset : Nat) (m : Memory)

/-- The bytes of a timestamp within the day read back as the timestamp. -/
theorem nanoseconds_timestampBytes {x : Int} (h0 : 0 ≤ x) (hday : x < dayNanoseconds) :
    Decoder.nanoseconds (bufferAt (m.write (start + offset) (FieldWriter.timestampBytes x)) start)
      offset = x := by
  have hday' : x < 86400000000000 := hday
  have hnat : (UInt64.ofInt x).toNat = x.toNat := by
    rw [UInt64.ofInt, UInt64.toNat_ofNat']
    omega
  have hlt : (UInt64.ofInt x).toNat < 2 ^ 48 := by omega
  have hread := Memory.read_write_self m (start + offset) (FieldWriter.timestampBytes x)
  obtain ⟨hhi, hlo⟩ := read_append (a := 2) (b := 4) hread rfl
  have hhi16 := load16_of_read hhi
  have hlo32 := load32_of_read hlo
  change (((load16 (m.write (start + offset) (FieldWriter.timestampBytes x)) (start + offset)).toUInt64
    <<< 32 ||| (load32 (m.write (start + offset) (FieldWriter.timestampBytes x))
      (start + offset + 2)).toUInt64).toNat : Int) = x
  rw [hhi16, hlo32, halves48 hlt, hnat, Int.toNat_of_nonneg h0]

/-- The validated decoder of a timestamp. -/
theorem timestamp_decodes : DecodesDay dayNanoseconds (offset + 6 ≤ size) (Decoder.nanoseconds m offset)
    (Decoder.timestamp true size m offset) := by
  have hpos : 0 ≤ Decoder.nanoseconds m offset := Int.natCast_nonneg _
  -- The two parts of the number are read without a check of their own.
  have hrun : Decoder.timestamp true size m offset =
      (do checkOffset true "timestamp" size offset 6
          checkTimestampRange true (Decoder.nanoseconds m offset)
          return Decoder.nanoseconds m offset) := by
    have hhi : Decoder.uint16 false size m offset = pure (load16 m offset) := rfl
    have hlo : Decoder.uint32 false size m (offset + 2) = pure (load32 m (offset + 2)) := rfl
    simp only [Decoder.timestamp, hhi, hlo, pure_bind, Decoder.nanoseconds]
  rw [hrun, checkTimestampRange, if_pos rfl]
  constructor
  case inDay =>
    intro x hx
    cases hoffset : checkOffset true "timestamp" size offset 6 with
    | error e =>
        rw [hoffset] at hx
        cases hx
    | ok u =>
        rw [hoffset] at hx
        split_ifs at hx with hday
        · cases hx
          exact ⟨hpos, hday⟩
        · cases hx
  case accepts =>
    intro hfits hday
    have hday' : Decoder.nanoseconds m offset < 24 * 3600 * 1000000000 := hday
    rw [checkOffset_ok true _ (by decide) hfits, if_pos hday']
    rfl

/-- The codec of timestamps is lawful at the timestamps that are not negative, and where the field does
not fit. -/
theorem timestampCodec_lawful_iff (x : Int) :
    timestampCodec.Lawful size start offset m x ↔ (offset + 6 ≤ size → 0 ≤ x) := by
  by_cases hrefused : offset + 6 ≤ size → dayNanoseconds ≤ x
  · -- The writer refuses what does not fit, and the times from a whole day on.
    obtain ⟨e, hw⟩ := FieldWriter.timestamp_refused size start offset m hrefused
    refine iff_of_true (Codec.lawful_of_refused ?_ hw) ?_
    · rintro ⟨hfits, -, hday⟩
      exact Int.not_lt.2 (hrefused hfits) hday
    · exact fun hfits => Int.le_trans (by decide) (hrefused hfits)
  · have hfits : offset + 6 ≤ size := Classical.byContradiction fun hout =>
      hrefused fun hfits => absurd hfits hout
    have hday : x < dayNanoseconds := Int.not_le.1 fun hday => hrefused fun _ => hday
    have hw := FieldWriter.timestamp_run size start offset m hfits hday
    constructor
    · intro hlawful _
      by_contra hneg
      -- A negative time is no time of the day, but it was written.
      have hnot : ¬ timestampCodec.Representable x := fun hx => hneg hx.1
      exact Codec.not_lawful_of_written hnot hw hlawful
    · intro h
      refine Codec.lawful_of_written rfl hfits ⟨h hfits, hday⟩ hw ?_
      have hnanos := nanoseconds_timestampBytes start offset m (h hfits) hday
      have hdecodes := (timestamp_decodes size offset (bufferAt (m.write (start + offset)
        (FieldWriter.timestampBytes x)) start)).accepts hfits
      rw [hnanos] at hdecodes
      exact hdecodes hday

theorem secondsField_run : Decoder.secondsField true size m offset =
    (do checkOffset true "std::uint32_t" size offset 4
        checkSecondsFieldRange true ⟨int32 (load32 m offset).toNat⟩
        return ⟨int32 (load32 m offset).toNat⟩) := by
  rw [Decoder.secondsField, Decoder.uint32]
  cases checkOffset true "std::uint32_t" size offset 4 <;> rfl

/-- The validated decoder of a number of seconds reads an `int`, and lets through those that are
negative. -/
theorem secondsField_decodes_iff :
    DecodesDay daySeconds (offset + 4 ≤ size) (load32 m offset).toNat
        ((Decoder.secondsField true size m offset).map SecondsField.intSeconds) ↔
      (offset + 4 ≤ size → (load32 m offset).toNat < 2147483648) := by
  have hmax := (load32 m offset).toNat_lt
  rw [secondsField_run, checkSecondsFieldRange, if_pos rfl]
  rcases Nat.lt_or_ge size (offset + 4) with hout | hfits
  · rw [checkOffset_error _ hout]
    refine iff_of_true ⟨fun x hx => ?_, fun hfits => ?_⟩ fun hfits => ?_
    · cases hx
    · exact absurd hfits (Nat.not_le.2 hout)
    · exact absurd hfits (Nat.not_le.2 hout)
  · rw [checkOffset_ok true _ (by decide) hfits]
    rcases Nat.lt_or_ge (load32 m offset).toNat 2147483648 with hsmall | hlarge
    · -- the number of seconds fits in an `int`
      have hint : int32 (load32 m offset).toNat = (load32 m offset).toNat :=
        int32_of_fits ⟨by omega, by omega⟩
      rw [hint]
      refine iff_of_true ⟨fun x hx => ?_, fun _ hday => ?_⟩ fun _ => hsmall
      · by_cases hday : ((load32 m offset).toNat : Int) < 24 * 3600
        · rw [if_pos hday] at hx
          cases hx
          exact ⟨Int.natCast_nonneg _, hday⟩
        · rw [if_neg hday] at hx
          cases hx
      · have hday' : ((load32 m offset).toNat : Int) < 24 * 3600 := hday
        rw [if_pos hday']
        rfl
    · -- From there on the `int` is negative, and the only check there is accepts it.
      have hneg : int32 (load32 m offset).toNat < 0 := by
        unfold int32
        omega
      have hday : int32 (load32 m offset).toNat < 24 * 3600 := by omega
      rw [if_pos hday]
      refine iff_of_false ?_ fun h => Nat.not_lt.2 hlarge (h hfits)
      intro h
      exact Int.not_le.2 hneg (h.inDay _ rfl).1

end Times

/-- The codecs of integers are lawful at every place and value, that of timestamps exactly where the
field does not fit or the timestamp is not negative. The validated decoder of timestamps accepts the
timestamps of the day, and that of seconds the seconds of the day exactly where the field does not fit
or the number is below 2^31. -/
theorem codecs_lawful (size start offset : Nat) (m : Memory) :
    (∀ x, uint8Codec.Lawful size start offset m x) ∧
      (∀ x, uint16Codec.Lawful size start offset m x) ∧
      (∀ x, uint32Codec.Lawful size start offset m x) ∧
      (∀ x, uint64Codec.Lawful size start offset m x) ∧
      (∀ x, timestampCodec.Lawful size start offset m x ↔ (offset + 6 ≤ size → 0 ≤ x)) ∧
      DecodesDay dayNanoseconds (offset + 6 ≤ size) (Decoder.nanoseconds m offset)
        (Decoder.timestamp true size m offset) ∧
      (DecodesDay daySeconds (offset + 4 ≤ size) (load32 m offset).toNat
          ((Decoder.secondsField true size m offset).map SecondsField.intSeconds) ↔
        (offset + 4 ≤ size → (load32 m offset).toNat < 2147483648)) :=
  ⟨uint8Codec_lawful size start offset m, uint16Codec_lawful size start offset m,
    uint32Codec_lawful size start offset m, uint64Codec_lawful size start offset m,
    timestampCodec_lawful_iff size start offset m, timestamp_decodes size offset m,
    secondsField_decodes_iff size offset m⟩

/-- The encoder accepts a timestamp of a nanosecond before midnight, and the decoder of seconds a number
that is -1 as an `int`. -/
theorem negative_times_accepted :
    (∃ m', (FieldWriter.timestamp true 6 0 0 (-1)).run (fun _ => 0) = .ok () m') ∧
      ¬ timestampCodec.Lawful 6 0 0 (fun _ => 0) (-1) ∧
      (Decoder.secondsField true 4 (fun _ => 255) 0).map SecondsField.intSeconds = .ok (-1) ∧
      ¬ DecodesDay daySeconds (0 + 4 ≤ 4) (load32 (fun _ => 255) 0).toNat
        ((Decoder.secondsField true 4 (fun _ => 255) 0).map SecondsField.intSeconds) := by
  have hw := FieldWriter.timestamp_run 6 0 0 (fun _ => 0) (x := -1) (by decide) (by decide)
  have hr : (Decoder.secondsField true 4 (fun _ => 255) 0).map SecondsField.intSeconds =
      .ok (-1) := by
    have hint : int32 (load32 (fun _ => 255) 0).toNat = -1 := by decide
    rw [secondsField_run, hint]
    rfl
  have hnot : ¬ timestampCodec.Representable (-1) := fun hx => absurd hx.1 (by decide)
  refine ⟨⟨_, hw⟩, Codec.not_lawful_of_written hnot hw, hr, fun h => ?_⟩
  exact absurd (h.inDay (-1) hr).1 (by decide)

end JayBeams.Itch5
