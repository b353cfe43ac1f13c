/-!
# Machine integers and exceptions

`int32` is the conversion of a mathematical integer to the 32-bit `int` of the source; where a
value fits it is the identity (`int32_of_fits`).

`FeedError` holds what `jb::feed_error` is raised with, one constructor for each place that raises
it, and `FeedError.what` is the text. `Failure` collects the ways in which a modelled operation ends
without a result. Two of its constructors stand for what the source does not check: an index past
the end of a `std::vector` and a price level outside the range of levels. Reaching one of them is
undefined or meaningless behavior in the source, and the model stops there. `outOfFuel` ends a model
that follows a loop of the source for a bounded number of iterations.
-/

set_option autoImplicit false

namespace JayBeams

/-- Conversion to a 32-bit two's complement `int`. -/
def int32 (x : Int) : Int := (x + 2147483648) % 4294967296 - 2147483648

/-- The values of a 32-bit `int`. -/
def FitsInt (x : Int) : Prop := -2147483648 ≤ x ∧ x < 2147483648

instance (x : Int) : Decidable (FitsInt x) := inferInstanceAs (Decidable (_ ∧ _))

theorem int32_of_fits {x : Int} (h : FitsInt x) : int32 x = x := by
  obtain ⟨h₁, h₂⟩ := h
  unfold int32
  omega

/-- What a `jb::feed_error` is raised with. -/
inductive FeedError where
  | invalidOperationParameters (operation : String) (qty : Int) (px : Nat)
  | invalidReduce (msg : String) (tkBeginTop tkInside px : Nat) (bookQty qty : Int)
  | nonExistingPriceLevel
  deriving DecidableEq, Repr

/-- The ways in which an operation ends without a result. -/
inductive Failure where
  /-- `jb::feed_error` -/
  | feedError (e : FeedError)
  /-- `JB_ASSERT_THROW` of this predicate -/
  | assertion (predicate : String)
  /-- `std::range_error` of `price_levels` and `level_to_price` -/
  | rangeError
  /-- `std::runtime_error` of `check_offset` -/
  | invalidOffset (msg : String) (size offset n : Nat)
  /-- `std::range_error` of `check_timestamp_range` -/
  | timestampRange (ts : Int)
  /-- `std::range_error` of `check_seconds_field_range` -/
  | secondsRange (seconds : Int)
  /-- `std::runtime_error` of `raise_validation_failed` -/
  | validationFailed (location : String) (what : List UInt8)
  /-- `std::runtime_error` of `char_list_validation_failed` -/
  | charListValidationFailed (x : Int)
  /-- `std::runtime_error` with its text -/
  | runtimeError (what : String)
  /-- `std::invalid_argument` with its text -/
  | invalidArgument (what : String)
  /-- an exception of a library or of the operating system, raised by this call -/
  | external (call : String)
  /-- `jb::usage` with its text and exit code -/
  | usage (what : String) (exitCode : Int)
  /-- an index past the end of a `std::vector` -/
  | outOfRange (index size : Nat)
  /-- a price level computed outside the range of levels -/
  | invalidLevel (level : Int)
  /-- the model has followed a loop for as many iterations as it may -/
  | outOfFuel
  deriving DecidableEq, Repr

/-- The classes of the exceptions. -/
inductive ExceptionClass where
  | feedError
  | runtimeError
  | rangeError
  | invalidArgument
  | usage
  | external
  deriving DecidableEq, Repr

/-- The class of the exception that a failure is raised as; undefined behavior has none. -/
def Failure.exceptionClass : Failure → Option ExceptionClass
  | .feedError _ => some .feedError
  | .assertion _ => some .runtimeError
  | .rangeError => some .rangeError
  | .invalidOffset _ _ _ _ => some .runtimeError
  | .timestampRange _ => some .rangeError
  | .secondsRange _ => some .rangeError
  | .validationFailed _ _ => some .runtimeError
  | .charListValidationFailed _ => some .runtimeError
  | .runtimeError _ => some .runtimeError
  | .invalidArgument _ => some .invalidArgument
  | .external _ => some .external
  | .usage _ _ => some .usage
  | .outOfRange _ _ => none
  | .invalidLevel _ => none
  | .outOfFuel => none

/-- The failure is a use of memory or of a level that the source does not check, or an assertion that
the source expects to hold. -/
def Failure.isFault : Failure → Bool
  | .assertion _ => true
  | .outOfRange _ _ => true
  | .invalidLevel _ => true
  | _ => false

/-- A computation without state returns when both of its steps do. -/
theorem exists_of_bind_eq_ok {α β : Type} {x : Except Failure α} {f : α → Except Failure β} {b : β}
    (h : (x >>= f) = .ok b) : ∃ a, x = .ok a ∧ f a = .ok b := by
  cases x with
  | error e => cases h
  | ok a => exact ⟨a, rfl, h⟩

/-- Raise the failure of a computation without state. -/
def liftExcept {σ α : Type} : Except Failure α → EStateM Failure σ α
  | .ok a => pure a
  | .error e => throw e

theorem liftExcept_run_ok {σ α : Type} {x : Except Failure α} {a : α} (h : x = .ok a) (t : σ) :
    (liftExcept x).run t = .ok a t := by
  rw [h]
  rfl

/-- `JB_ASSERT_THROW` -/
def assertThrow {σ : Type} (predicate : String) (holds : Bool) : EStateM Failure σ Unit :=
  if holds then pure () else throw (.assertion predicate)

/-- Run a computation on a part of the state. The part keeps its changes when the computation
raises. -/
def onPart {σ τ α : Type} (part : σ → τ) (update : τ → σ → σ) (act : EStateM Failure τ α) :
    EStateM Failure σ α := fun s =>
  match act (part s) with
  | .ok a t => .ok a (update t s)
  | .error e t => .error e (update t s)

section OnPart

variable {σ τ α : Type} (part : σ → τ) (update : τ → σ → σ) {act : EStateM Failure τ α} {s : σ} {t : τ}

theorem onPart_run_ok {a : α} (h : act.run (part s) = .ok a t) :
    (onPart part update act).run s = .ok a (update t s) := by
  simp only [EStateM.run] at h ⊢
  rw [onPart, h]

theorem onPart_run_error {e : Failure} (h : act.run (part s) = .error e t) :
    (onPart part update act).run s = .error e (update t s) := by
  simp only [EStateM.run] at h ⊢
  rw [onPart, h]

theorem onPart_eq_ok {a : α} {s' : σ} (h : (onPart part update act).run s = .ok a s') :
    ∃ t, act.run (part s) = .ok a t ∧ s' = update t s := by
  simp only [EStateM.run, onPart] at h ⊢
  cases hact : act (part s) with
  | ok b t =>
      rw [hact] at h
      cases h
      exact ⟨t, rfl, rfl⟩
  | error e t =>
      rw [hact] at h
      cases h

end OnPart

end JayBeams
