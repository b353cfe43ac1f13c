import JayBeams.Itch5.BaseCoders
import JayBeams.P2Ceil

/-!
# Short string fields

A short string field holds a fixed-length string of a message in a buffer that is larger than the
field, terminated by a NUL character. A field is made from a string, with `strncpy`, or from the bytes
of a message, with `memcpy`; in both cases `nul_terminate` then puts a NUL over the first space.

`stored content` is what the buffer holds afterwards when the characters copied into it were
`content`: the characters up to the first blank (`visible`), a NUL in place of that blank, and all
that follows it as it was (`remainder`). Fields compare equal when their visible characters are the
same (`beq_iff`), but `hash_value` covers the remainder as well (`read_buffer`).
-/

set_option autoImplicit false

namespace JayBeams.Itch5

open Bytes

/-! ## The size of the buffer -/

/-- `short_string_field::buffer_size` -/
def bufferSize (wireSize : Nat) : Nat := (p2ceil (UInt64.ofNat wireSize)).toNat

theorem lt_bufferSize {wireSize : Nat} (h : wireSize < 2 ^ 63) : wireSize < bufferSize wireSize := by
  have hn : (UInt64.ofNat wireSize).toNat = wireSize := by
    rw [UInt64.toNat_ofNat']
    exact Nat.mod_eq_of_lt (by omega)
  have hlt := lt_p2ceil (n := UInt64.ofNat wireSize) (by rw [hn]; exact h)
  rwa [hn] at hlt

/-! ## Strings in memory -/

/-- The space character -/
def space : UInt8 := 32

/-- `strncmp`, from an index on and for at most `n` characters -/
def strncmp (a b : Memory) : Nat → Nat → Int
  | _, 0 => 0
  | i, n + 1 =>
      if a i ≠ b i then (a i).toNat - (b i).toNat
      else if a i = 0 then 0
      else strncmp a b (i + 1) n

/-- `strchr`, from an index on in a buffer with `n` characters left -/
def strchr (m : Memory) (c : UInt8) : Nat → Nat → Option Nat
  | _, 0 => none
  | i, n + 1 =>
      if m i = c then some i
      else if m i = 0 then none
      else strchr m c (i + 1) n

/-- The characters that `strncpy` writes: those of the string before its first NUL, at most `n`, and
then NULs up to `n`. -/
def strncpy (rhs : List UInt8) (n : Nat) : List UInt8 :=
  let chars := (rhs.takeWhile (· != 0)).take n
  chars ++ List.replicate (n - chars.length) 0

@[simp] theorem length_strncpy (rhs : List UInt8) (n : Nat) : (strncpy rhs n).length = n := by
  simp only [strncpy, List.length_append, List.length_replicate]
  have := List.length_take_le n (rhs.takeWhile (· != 0))
  omega

/-- Strings compare equal when they have the same characters before their first NUL. -/
theorem strncmp_eq_zero_iff (a b : Memory) (i n : Nat) :
    strncmp a b i n = 0 ↔
      (a.read i n).takeWhile (· != 0) = (b.read i n).takeWhile (· != 0) := by
  induction n generalizing i with
  | zero => simp [strncmp]
  | succ n ih =>
      rw [strncmp, Memory.read_succ, Memory.read_succ]
      by_cases hab : a i = b i
      · rw [if_neg (not_not.2 hab), ← hab]
        by_cases h0 : a i = 0
        · simp [h0]
        · simp [h0, ih]
      · rw [if_pos hab]
        have hne : ((a i).toNat : Int) - (b i).toNat ≠ 0 := by
          intro h
          apply hab
          apply UInt8.toNat_inj.1
          omega
        simp only [hne, false_iff]
        intro h
        -- the first characters differ, so at most one of them is NUL
        by_cases h0 : a i = 0
        · have hb : b i ≠ 0 := fun hb => hab (h0.trans hb.symm)
          simp [h0, hb] at h
        · by_cases hb : b i = 0
          · simp [h0, hb] at h
          · simp [h0, hb, hab] at h

/-! ## Blanks -/

/-- A character that ends the string in a field: a NUL or a space. -/
def isBlank (c : UInt8) : Bool := c == 0 || c == space

/-- The characters before the first blank. -/
def visible (content : List UInt8) : List UInt8 := content.takeWhile fun c => !isBlank c

/-- The characters after the first blank. -/
def remainder (content : List UInt8) : List UInt8 :=
  (content.dropWhile fun c => !isBlank c).drop 1

/-- The characters with a NUL in place of the first blank. -/
def stored : List UInt8 → List UInt8
  | [] => []
  | c :: cs => if isBlank c then 0 :: cs else c :: stored cs

@[simp] theorem length_stored (cs : List UInt8) : (stored cs).length = cs.length := by
  induction cs with
  | nil => rfl
  | cons c cs ih =>
      rw [stored]
      split
      · rfl
      · simp [ih]

theorem isBlank_zero : isBlank 0 = true := rfl

theorem ne_zero_of_not_isBlank {c : UInt8} (h : isBlank c ≠ true) : c ≠ 0 := by
  rintro rfl
  exact h isBlank_zero

/-- What is stored reads as a C string with the visible characters. -/
theorem takeWhile_stored (cs : List UInt8) : (stored cs).takeWhile (· != 0) = visible cs := by
  induction cs with
  | nil => rfl
  | cons c cs ih =>
      rw [visible] at ih ⊢
      rw [stored]
      split
      · next h => simp [h]
      · next h => simpa [h, ne_zero_of_not_isBlank h] using ih

/-- Contents of one length are stored the same when they agree before and after the first blank. -/
theorem stored_eq_iff {cs ds : List UInt8} (h : cs.length = ds.length) :
    stored cs = stored ds ↔ visible cs = visible ds ∧ remainder cs = remainder ds := by
  induction cs generalizing ds with
  | nil =>
      rw [List.length_nil] at h
      rw [List.length_eq_zero_iff.1 h.symm]
      simp
  | cons c cs ih =>
      cases ds with
      | nil => simp at h
      | cons d ds =>
          have hlen : cs.length = ds.length := by simpa using h
          by_cases hc : isBlank c = true <;> by_cases hd : isBlank d = true
          · simp [stored, visible, remainder, hc, hd]
          · have h0 := ne_zero_of_not_isBlank hd
            simp [stored, visible, hc, hd, h0.symm]
          · have h0 := ne_zero_of_not_isBlank hc
            simp [stored, visible, hc, hd, h0]
          · have ih := ih hlen
            simp only [visible, remainder] at ih
            simp [stored, visible, remainder, hc, hd, ih, and_assoc]

/-! ## The field -/

/-- `short_string_field::nul_terminate` -/
def nulTerminate (wireSize : Nat) (buffer : Memory) : Memory :=
  -- a NUL at one past the expected length on the wire
  let buffer := buffer.write wireSize [0]
  -- and one over the first space
  match strchr buffer space 0 (bufferSize wireSize) with
  | some p => buffer.write p [0]
  | none => buffer

/-- A search that starts at an index finds an index at or after it. -/
theorem le_of_strchr {m : Memory} {c : UInt8} {i n p : Nat} (h : strchr m c i n = some p) : i ≤ p := by
  induction n generalizing i with
  | zero => simp [strchr] at h
  | succ n ih =>
      rw [strchr] at h
      split at h
      · exact Nat.le_of_eq (Option.some.inj h)
      · split at h
        · cases h
        · exact Nat.le_of_succ_le (ih h)

/-- Putting a NUL over the first space of a terminated string stores its characters. -/
theorem read_strchr {m : Memory} {i k n : Nat} (hend : m (i + k) = 0) (hn : k < n) :
    (match strchr m space i n with
      | some p => m.write p [0]
      | none => m).read i k = stored (m.read i k) := by
  induction k generalizing i n with
  | zero => rfl
  | succ k ih =>
      obtain ⟨n, rfl⟩ : ∃ n', n = n' + 1 := ⟨n - 1, by omega⟩
      rw [strchr, Memory.read_succ m i k, stored]
      by_cases hsp : m i = space
      · -- the space is here
        rw [if_pos hsp, if_pos (by simp [isBlank, hsp])]
        simp only [Memory.read_succ]
        have hrest : (m.write i [0]).read (i + 1) k = m.read (i + 1) k :=
          Memory.read_write_disjoint m i [0] (Or.inr (by simp))
        rw [hrest]
        simp [Memory.write]
      · rw [if_neg hsp]
        by_cases h0 : m i = 0
        · -- the string ends here
          rw [if_pos h0, if_pos (by simp [isBlank, h0])]
          simp only [Memory.read_succ, h0]
        · have hblank : ¬ isBlank (m i) = true := by simp [isBlank, h0, hsp]
          rw [if_neg h0, if_neg hblank]
          have hrest := ih (i := i + 1) (n := n) (by rw [← hend]; congr 1; omega) (by omega)
          cases hfound : strchr m space (i + 1) n with
          | none =>
              rw [hfound] at hrest
              simp only [Memory.read_succ]
              exact congrArg _ hrest
          | some p =>
              rw [hfound] at hrest
              have hp : i < p := le_of_strchr hfound
              simp only [Memory.read_succ]
              rw [Memory.write_of_lt m p [0] hp]
              exact congrArg _ hrest

/-- A NUL stays a NUL when another one is written. -/
theorem write_zero_apply {m : Memory} {i : Nat} (h : m i = 0) (p : Nat) : m.write p [0] i = 0 := by
  rcases Nat.lt_trichotomy i p with hp | rfl | hp
  · rw [Memory.write_of_lt m p [0] hp, h]
  · simp [Memory.write]
  · rw [Memory.write_of_ge m p [0] hp, h]

theorem nulTerminate_terminated (wireSize : Nat) (buffer : Memory) :
    nulTerminate wireSize buffer wireSize = 0 := by
  have hend : buffer.write wireSize [0] wireSize = 0 := by simp [Memory.write]
  rw [nulTerminate]
  cases strchr (buffer.write wireSize [0]) space 0 (bufferSize wireSize) with
  | none => exact hend
  | some p => exact write_zero_apply hend p

theorem read_nulTerminate {wireSize : Nat} (h : wireSize < 2 ^ 63) (buffer : Memory) :
    (nulTerminate wireSize buffer).read 0 wireSize = stored (buffer.read 0 wireSize) := by
  have hkeep : (buffer.write wireSize [0]).read 0 wireSize = buffer.read 0 wireSize :=
    Memory.read_write_disjoint buffer wireSize [0] (Or.inl (by simp))
  have hend : buffer.write wireSize [0] (0 + wireSize) = 0 := by simp [Memory.write]
  rw [← hkeep]
  exact read_strchr hend (lt_bufferSize h)

/-- `short_string_field`: its buffer holds a NUL at one past the length on the wire. -/
structure ShortStringField (wireSize : Nat) where
  buffer : Memory
  terminated : buffer wireSize = 0

namespace ShortStringField

variable {wireSize : Nat}

/-- The default constructor -/
def empty : ShortStringField wireSize := ⟨fun _ => 0, rfl⟩

/-- The constructor from a string -/
def ofString (rhs : List UInt8) : ShortStringField wireSize where
  buffer := nulTerminate wireSize
    ((empty : ShortStringField wireSize).buffer.write 0 (strncpy rhs wireSize))
  terminated := nulTerminate_terminated wireSize _

/-- `short_string_field::assign` -/
def assign (buf : Memory) (offset : Nat) : ShortStringField wireSize where
  buffer := nulTerminate wireSize
    ((empty : ShortStringField wireSize).buffer.write 0 (buf.read offset wireSize))
  terminated := nulTerminate_terminated wireSize _

/-- `c_str`: the characters before the first NUL -/
def cStr (x : ShortStringField wireSize) : List UInt8 :=
  (x.buffer.read 0 (bufferSize wireSize)).takeWhile (· != 0)

/-- `operator==` -/
instance : BEq (ShortStringField wireSize) where
  beq a b := strncmp a.buffer b.buffer 0 (bufferSize wireSize) == 0

/-- `hash_value`, for a function that hashes a sequence of bytes -/
def hashValue (hashRange : List UInt8 → UInt64) (x : ShortStringField wireSize) : UInt64 :=
  hashRange (x.buffer.read 0 wireSize)

/-- `decoder<validate, short_string_field<wsize, F>>::r` -/
def decode (valueValidator : List UInt8 → Bool) (validate : Bool) (size : Nat) (buffer : Memory)
    (offset : Nat) : Except Failure (ShortStringField wireSize) := do
  checkOffset validate "short_string_field<>" size offset wireSize
  let tmp : ShortStringField wireSize := assign buffer offset
  if validate && !valueValidator tmp.cStr then
    throw (.validationFailed "short_string_field<>" tmp.cStr)
  return tmp

/-- The field is built from a string, or by decoding bytes of a message, and these are the characters
that were copied into its buffer. -/
inductive BuiltFrom : List UInt8 → ShortStringField wireSize → Prop
  | string (rhs : List UInt8) : BuiltFrom (strncpy rhs wireSize) (ofString rhs)
  | wire (valueValidator : List UInt8 → Bool) (validate : Bool) (size offset : Nat) (buffer : Memory)
      {x : ShortStringField wireSize} (h : decode valueValidator validate size buffer offset = .ok x) :
      BuiltFrom (buffer.read offset wireSize) x

/-- A decoded field was assigned from the bytes of the message. -/
theorem eq_assign_of_decode {valueValidator : List UInt8 → Bool} {validate : Bool}
    {size offset : Nat} {buffer : Memory} {x : ShortStringField wireSize}
    (h : decode valueValidator validate size buffer offset = .ok x) : x = assign buffer offset := by
  rw [decode] at h
  cases hcheck : checkOffset validate "short_string_field<>" size offset wireSize with
  | error e =>
      rw [hcheck] at h
      cases h
  | ok u =>
      rw [hcheck] at h
      simp only [bind, Except.bind] at h
      split at h
      · cases h
      · exact (Except.ok.inj h).symm

section Built

variable {content : List UInt8} {x : ShortStringField wireSize}

theorem BuiltFrom.length_content (h : BuiltFrom content x) : content.length = wireSize := by
  cases h with
  | string rhs => exact length_strncpy rhs wireSize
  | wire _ _ _ _ _ h => exact Memory.length_read _ _ _

theorem read_written (hn : wireSize < 2 ^ 63) {content : List UInt8}
    (h : content.length = wireSize) (m : Memory) :
    (nulTerminate wireSize (m.write 0 content)).read 0 wireSize = stored content := by
  subst h
  rw [read_nulTerminate hn, Memory.read_write_self]

/-- The bytes that `hash_value` covers. -/
theorem BuiltFrom.read_buffer (hn : wireSize < 2 ^ 63) (h : BuiltFrom content x) :
    x.buffer.read 0 wireSize = stored content := by
  cases h with
  | string rhs => exact read_written hn (length_strncpy rhs wireSize) _
  | wire _ _ _ _ _ h =>
      rw [eq_assign_of_decode h]
      exact read_written hn (Memory.length_read _ _ _) _

/-- The string in a field ends inside the field. -/
theorem cStr_eq (hn : wireSize < 2 ^ 63) (x : ShortStringField wireSize) :
    x.cStr = (x.buffer.read 0 wireSize).takeWhile (· != 0) := by
  obtain ⟨k, hk⟩ := Nat.exists_eq_add_of_lt (lt_bufferSize hn)
  rw [cStr, hk, Nat.add_assoc, Memory.read_add, Memory.read_succ, Nat.zero_add, x.terminated,
    List.takeWhile_append]
  split
  · next hall =>
      rw [(List.takeWhile_prefix _).eq_of_length hall]
      simp
  · rfl

theorem BuiltFrom.cStr_eq_visible (hn : wireSize < 2 ^ 63) (h : BuiltFrom content x) :
    x.cStr = visible content := by
  rw [cStr_eq hn, h.read_buffer hn, takeWhile_stored]

end Built

/-- Fields compare equal when they hold the same string. -/
theorem beq_iff (a b : ShortStringField wireSize) : (a == b) = true ↔ a.cStr = b.cStr := by
  rw [cStr, cStr, ← strncmp_eq_zero_iff]
  exact beq_iff_eq (a := strncmp a.buffer b.buffer 0 (bufferSize wireSize))

section Hash

variable {a b : ShortStringField wireSize} {ca cb : List UInt8}

/-- The condition under which two fields are lawful keys: where the characters before the first blank
are the same, so are those after it. -/
def SamePadding (ca cb : List UInt8) : Prop := visible ca = visible cb → remainder ca = remainder cb

/-- Equal fields have equal hash codes for every hash function exactly when their paddings agree. -/
theorem hashValue_of_beq_iff (hn : wireSize < 2 ^ 63) (ha : BuiltFrom ca a) (hb : BuiltFrom cb b) :
    (∀ hashRange, (a == b) = true → hashValue hashRange a = hashValue hashRange b) ↔
      SamePadding ca cb := by
  have hlen : ca.length = cb.length := ha.length_content.trans hb.length_content.symm
  have hequal : (a == b) = true ↔ visible ca = visible cb := by
    rw [beq_iff, ha.cStr_eq_visible hn, hb.cStr_eq_visible hn]
  simp only [hashValue, ha.read_buffer hn, hb.read_buffer hn, hequal]
  constructor
  · intro h hvis
    -- a function that tells the two stored contents apart
    have hcode := h (fun l => if l = stored ca then 0 else 1) hvis
    have hstored : stored cb = stored ca := by
      by_contra hne
      simp [hne] at hcode
    exact ((stored_eq_iff hlen).1 hstored.symm).2
  · intro h hashRange hvis
    rw [(stored_eq_iff hlen).2 ⟨hvis, h hvis⟩]

end Hash

end ShortStringField

end JayBeams.Itch5
