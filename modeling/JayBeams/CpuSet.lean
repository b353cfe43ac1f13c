import JayBeams.Common
import JayBeams.Library.Machine

/-!
# Sets of CPUs

`cpu_set` wraps the bit mask of a fixed number of CPUs that the system defines. A set is read from and
written in the list format: numbers and ranges of numbers with commas between them. In the model the
functions that change a set work on a `CpuSetRun`, which also records the CPUs that were given to
`CPU_SET` and `CPU_CLR`.

The two loops over a range compare their `int` counter with the end of the range by `!=`, so that a
counter that starts behind it goes on to the largest `int`. What the increment does there is undefined;
the model stops with `CpuSetError.signedOverflow`.
-/

set_option autoImplicit false

namespace JayBeams

/-- `CPU_SETSIZE`, the number of CPUs of a `cpu_set_t` -/
def cpuSetSize : Nat := 1024

/-- Conversion of an `int` to a `std::size_t`. -/
def sizeT (x : Int) : Nat := (x % 18446744073709551616).toNat

/-- What ends a function of `cpu_set` without a result. -/
inductive CpuSetError where
  /-- `std::out_of_range` -/
  | outOfRange (what : String)
  /-- `std::invalid_argument` -/
  | invalidArgument (what : String)
  /-- an increment of the largest `int`, which is undefined -/
  | signedOverflow
  deriving DecidableEq, Repr

/-- `cpu_set`: the CPUs whose bit is set. -/
structure CpuSet where
  bits : Nat → Bool
  lt_of_bits : ∀ cpu, bits cpu = true → cpu < cpuSetSize

namespace CpuSet

@[ext] theorem ext {s t : CpuSet} (h : ∀ cpu, s.bits cpu = t.bits cpu) : s = t := by
  cases s
  cases t
  congr
  exact funext h

/-- The constructor, `CPU_ZERO` -/
def empty : CpuSet := ⟨fun _ => false, fun _ h => absurd h Bool.false_ne_true⟩

/-- `capacity` -/
def capacity : Nat := cpuSetSize

/-- `status`, `CPU_ISSET` -/
def status (s : CpuSet) (cpu : Nat) : Bool := s.bits cpu

/-- The set with a CPU as a member or not; a CPU behind the last one is ignored. -/
def put (member : Bool) (s : CpuSet) (cpu : Int) : CpuSet where
  bits n := if (n : Int) = cpu ∧ n < cpuSetSize then member else s.bits n
  lt_of_bits n h := by
    split_ifs at h with hn
    · exact hn.2
    · exact s.lt_of_bits n h

end CpuSet

/-- A set that is worked on, and the CPUs that were given to `CPU_SET` and `CPU_CLR`. -/
structure CpuSetRun where
  set : CpuSet
  touched : List Int

namespace CpuSet

/-- `CPU_SET` and `CPU_CLR` -/
def cpuPut (member : Bool) (cpu : Int) : EStateM CpuSetError CpuSetRun Unit :=
  modify fun r => ⟨r.set.put member cpu, r.touched ++ [cpu]⟩

/-- `check_range` for one CPU -/
def checkRange (cpu : Int) (op : String) : EStateM CpuSetError CpuSetRun Unit :=
  if 0 ≤ cpu ∧ sizeT cpu < capacity then return ()
  else throw (.outOfRange (s!"cpu_set::{op}({cpu}) - argument out of range " ++
    s!"[0,{capacity - 1}]"))

/-- `check_range` for a range of CPUs -/
def checkRanges (cpulo cpuhi : Int) (op : String) : EStateM CpuSetError CpuSetRun Unit :=
  if cpulo < 0 ∨ capacity ≤ sizeT cpuhi then
    throw (.outOfRange (s!"cpu_set::{op}({cpulo},{cpuhi})" ++
      s!"- argument out of expected range [0,{capacity - 1}]"))
  else return ()

/-- `set` of one CPU -/
def set (cpu : Int) : EStateM CpuSetError CpuSetRun Unit := do
  checkRange cpu "set"
  cpuPut true cpu

/-- The loop of `set` and `clear` over a range, with the number of `int`s from `i` on. -/
def rangeLoop (member : Bool) (cpuhi : Int) : Nat → Int → EStateM CpuSetError CpuSetRun Unit
  | 0, _ => throw .signedOverflow
  | n + 1, i =>
      if i = cpuhi + 1 then return ()
      else do
        cpuPut member i
        rangeLoop member cpuhi n (i + 1)

/-- `set` or `clear` of a range of CPUs -/
def putRange (member : Bool) (op : String) (cpulo cpuhi : Int) :
    EStateM CpuSetError CpuSetRun Unit := do
  checkRanges cpulo cpuhi op
  rangeLoop member cpuhi (2147483648 - cpulo).toNat cpulo

/-- `set` of a range of CPUs -/
def setRange : Int → Int → EStateM CpuSetError CpuSetRun Unit := putRange true "set"

/-- `clear` of a range of CPUs -/
def clearRange : Int → Int → EStateM CpuSetError CpuSetRun Unit := putRange false "clear"

/-! ## Reading the list format -/

/-- `std::isspace` in the default locale -/
def isSpace (c : Char) : Bool := c.toNat == 32 || (9 ≤ c.toNat && c.toNat ≤ 13)

/-- `std::stoi`: the number and how many characters were read, none when it raises. -/
def stoi (s : List Char) : Option (Int × Nat) :=
  let (sign, unsigned) : Int × List Char :=
    match s.dropWhile isSpace with
    | '-' :: rest => (-1, rest)
    | '+' :: rest => (1, rest)
    | rest => (1, rest)
  let digits := unsigned.takeWhile Char.isDigit
  let value := sign * (Nat.ofDigitChars 10 digits 0 : Nat)
  if digits = [] ∨ ¬ FitsInt value then none
  else some (value, s.length - (unsigned.dropWhile Char.isDigit).length)

/-- `strtonum<int>` -/
def strtonum (s : List Char) : Option Int :=
  if s = [] then none
  else match stoi s with
    | some (value, stop) => if stop = s.length then some value else none
    | none => none

/-- `std::getline` on the characters left in a stream: the line, the characters after the delimiter, and
whether the end of the stream was met. It fails when no character is left. -/
def getline (delim : Char) (chars : List Char) : Option (List Char × List Char × Bool) :=
  if chars = [] then none
  else match chars.dropWhile (· != delim) with
    | [] => some (chars, [], true)
    | _ :: rest => some (chars.takeWhile (· != delim), rest, false)

/-- The strings that the loop of `parse` reads from the stream, at most `n`. -/
def elementsUpTo : Nat → List Char → List (List Char)
  | 0, _ => []
  | n + 1, chars =>
      match getline ',' chars with
      | none => []
      | some (element, rest, eof) => element :: if eof then [] else elementsUpTo n rest

/-- The strings that the loop of `parse` reads: each of them takes a character or more. -/
def elements (value : List Char) : List (List Char) := elementsUpTo value.length value

/-- `parse_error` -/
def parseError (value : List Char) : EStateM CpuSetError CpuSetRun Unit :=
  throw (.invalidArgument ("cpu_set::parse() - invalid argument (" ++ String.ofList value ++ ")"))

/-- The body of the loop of `parse`. -/
def parseElement (value element : List Char) : EStateM CpuSetError CpuSetRun Unit :=
  let (lo, rest, eof) := (getline '-' element).getD ([], [], true)
  if eof then
    match strtonum lo with
    | none => parseError value
    | some cpu => set cpu
  else
    match getline '-' rest with
    | some (hi, _, true) =>
        match strtonum lo, strtonum hi with
        | some cpulo, some cpuhi => setRange cpulo cpuhi
        | _, _ => parseError value
    | _ => parseError value

/-- The loop of `parse`. -/
def parseElements (value : List Char) : List (List Char) → EStateM CpuSetError CpuSetRun Unit
  | [] => return ()
  | element :: elements => do
      parseElement value element
      parseElements value elements

/-- `parse`, with the CPUs that it touched -/
def parseRun (value : List Char) : EStateM.Result CpuSetError CpuSetRun Unit :=
  (parseElements value (elements value)).run ⟨empty, []⟩

/-- `parse` -/
def parse (value : List Char) : Except CpuSetError CpuSet :=
  match parseRun value with
  | .ok _ r => .ok r.set
  | .error e _ => .error e

/-! ## Writing the list format -/

/-- The inner loop of `as_list_format`, for at most `n` CPUs: the first one that is no member. -/
def runEnd (s : CpuSet) : Nat → Nat → Nat
  | 0, stop => stop
  | n + 1, stop => if stop < capacity ∧ s.status stop = true then runEnd s n (stop + 1) else stop

/-- The outer loop of `as_list_format`, for at most `n` runs. -/
def formatFrom (s : CpuSet) : Nat → Nat → List Char → List Char
  | 0, _, _ => []
  | n + 1, i, sep =>
      if ¬ i < capacity then []
      else if s.status i = false then formatFrom s n (i + 1) sep
      else
        let stop := runEnd s (capacity - i) i
        sep ++ Nat.toDigits 10 i ++
          -- a run that ends at the last CPU is written as a range also when it has one CPU only
          if stop ≠ i + 1 ∨ stop = capacity then
            '-' :: Nat.toDigits 10 (stop - 1) ++ formatFrom s n (stop + 1) [',']
          else formatFrom s n (i + 1) [',']

/-- `as_list_format` -/
def asListFormat (s : CpuSet) : List Char := formatFrom s capacity 0 []

end CpuSet

end JayBeams
