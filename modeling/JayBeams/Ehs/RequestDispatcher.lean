import JayBeams.Common

/-!
# The request dispatcher

`request_dispatcher` finds the handler for the path of a request, prepares a response for it and
counts the response by the class of its status. A path without a handler gets a 404 and a handler that
raises gets a 500.

A handler is a function of the request, the response prepared for it and the counters (which
`append_metrics` reads), and of whatever else it may read, a value of `Ω`. It returns the response that
it leaves or raises a `std::exception`.

How a status is classified and what the header fields are is up to the HTTP library, so that
`toStatusClass` and the type `Φ` of the fields are parameters.
-/

set_option autoImplicit false

namespace JayBeams.Ehs

/-- The header fields of a message, with `insert` and `set` of a field by its name and value -/
class HeaderFields (Φ : Type) where
  empty : Φ
  insert : Φ → String → String → Φ
  set : Φ → String → String → Φ

/-- `request_type` -/
structure Request (Φ : Type) where
  target : String
  version : Nat
  fields : Φ
  body : String
  deriving DecidableEq, Repr

/-- `response_type` -/
structure Response (Φ : Type) where
  result : Nat
  version : Nat
  fields : Φ
  body : String
  deriving DecidableEq, Repr

namespace Response

variable {Φ : Type} [HeaderFields Φ]

/-- `insert` of a header field -/
def insert (res : Response Φ) (name value : String) : Response Φ :=
  { res with fields := HeaderFields.insert res.fields name value }

/-- `set` of a header field -/
def set (res : Response Φ) (name value : String) : Response Φ :=
  { res with fields := HeaderFields.set res.fields name value }

end Response

/-- `beast::http::status_class` -/
inductive StatusClass where
  | unknown
  | informational
  | successful
  | redirection
  | clientError
  | serverError
  deriving DecidableEq, Repr

/-- The counters of `request_dispatcher` -/
structure Counters where
  openConnection : Nat
  closeConnection : Nat
  readOk : Nat
  readError : Nat
  writeInvalid : Nat
  write100 : Nat
  write200 : Nat
  write300 : Nat
  write400 : Nat
  write500 : Nat
  writeOk : Nat
  writeError : Nat
  acceptOk : Nat
  acceptError : Nat
  acceptClosed : Nat
  deriving DecidableEq, Repr

namespace Counters

/-- The counters at the start -/
def zero : Counters := ⟨0, 0, 0, 0, 0, 0, 0, 0, 0, 0, 0, 0, 0, 0, 0⟩

/-- The responses in all the classes -/
def responses (k : Counters) : Nat :=
  k.writeInvalid + k.write100 + k.write200 + k.write300 + k.write400 + k.write500

/-- The counter that `update_response_counter` increments for a class of status -/
def countResponse (k : Counters) : StatusClass → Counters
  | .unknown => { k with writeInvalid := k.writeInvalid + 1 }
  | .informational => { k with write100 := k.write100 + 1 }
  | .successful => { k with write200 := k.write200 + 1 }
  | .redirection => { k with write300 := k.write300 + 1 }
  | .clientError => { k with write400 := k.write400 + 1 }
  | .serverError => { k with write500 := k.write500 + 1 }

theorem responses_countResponse (k : Counters) (sc : StatusClass) :
    (k.countResponse sc).responses = k.responses + 1 := by
  cases sc <;> simp only [countResponse, responses] <;> omega

@[simp] theorem readOk_countResponse (k : Counters) (sc : StatusClass) :
    (k.countResponse sc).readOk = k.readOk := by
  cases sc <;> rfl

@[simp] theorem writeOk_countResponse (k : Counters) (sc : StatusClass) :
    (k.countResponse sc).writeOk = k.writeOk := by
  cases sc <;> rfl

@[simp] theorem writeError_countResponse (k : Counters) (sc : StatusClass) :
    (k.countResponse sc).writeError = k.writeError := by
  cases sc <;> rfl

end Counters

/-- A `std::exception` with its text -/
structure StdException where
  what : String
  deriving DecidableEq, Repr

/-- `request_handler` -/
abbrev RequestHandler (Φ Ω : Type) :=
  Ω → Counters → Request Φ → Response Φ → Except StdException (Response Φ)

/-- `request_dispatcher` -/
structure RequestDispatcher (Φ Ω : Type) where
  serverName : String
  handlers : String → Option (RequestHandler Φ Ω)
  counters : Counters

namespace RequestDispatcher

variable {Φ Ω : Type}

/-- The constructor -/
def make (serverName : String) : RequestDispatcher Φ Ω := ⟨serverName, fun _ => none, Counters.zero⟩

/-- `add_handler` -/
def addHandler (d : RequestDispatcher Φ Ω) (path : String) (handler : RequestHandler Φ Ω) :
    Except Failure (RequestDispatcher Φ Ω) :=
  match d.handlers path with
  | some _ => .error (.runtimeError ("duplicate handler path: " ++ path))
  | none => .ok { d with handlers := fun p => if p = path then some handler else d.handlers p }

/-- `find_handler` -/
def findHandler (d : RequestDispatcher Φ Ω) (path : String) : Option (RequestHandler Φ Ω) :=
  d.handlers path

section Responses

variable [HeaderFields Φ]

/-- The response that `process` prepares for a handler -/
def preparedResponse (d : RequestDispatcher Φ Ω) (req : Request Φ) : Response Φ :=
  Response.insert ⟨200, req.version, HeaderFields.empty, ""⟩ "server" d.serverName

/-- The response of `internal_error` -/
def internalErrorResponse (d : RequestDispatcher Φ Ω) (req : Request Φ) : Response Φ :=
  let res : Response Φ := ⟨500, req.version, HeaderFields.empty, "An internal error occurred"⟩
  (res.insert "server" d.serverName).insert "content-type" "text/plain"

/-- The response of `not_found` -/
def notFoundResponse (d : RequestDispatcher Φ Ω) (req : Request Φ) : Response Φ :=
  let res : Response Φ :=
    ⟨404, req.version, HeaderFields.empty, "path: " ++ req.target ++ " not found\r\n"⟩
  (res.insert "server" d.serverName).insert "content-type" "text/plain"

/-- The response to a request that a handler is called for: what it leaves, or a 500 when it raises. -/
def handled (d : RequestDispatcher Φ Ω) (handler : RequestHandler Φ Ω) (ω : Ω) (req : Request Φ) :
    Response Φ :=
  match handler ω d.counters req (d.preparedResponse req) with
  | .ok res => res
  | .error _ => d.internalErrorResponse req

end Responses

section Classified

variable (toStatusClass : Nat → StatusClass)

/-- `update_response_counter` -/
def updateResponseCounter (d : RequestDispatcher Φ Ω) (res : Response Φ) : RequestDispatcher Φ Ω :=
  { d with counters := d.counters.countResponse (toStatusClass res.result) }

variable [HeaderFields Φ]

/-- `internal_error` -/
def internalError (d : RequestDispatcher Φ Ω) (req : Request Φ) : Response Φ × RequestDispatcher Φ Ω :=
  (d.internalErrorResponse req, d.updateResponseCounter toStatusClass (d.internalErrorResponse req))

/-- `not_found` -/
def notFound (d : RequestDispatcher Φ Ω) (req : Request Φ) : Response Φ × RequestDispatcher Φ Ω :=
  (d.notFoundResponse req, d.updateResponseCounter toStatusClass (d.notFoundResponse req))

/-- `process` -/
def process (d : RequestDispatcher Φ Ω) (ω : Ω) (req : Request Φ) :
    Response Φ × RequestDispatcher Φ Ω :=
  match d.findHandler req.target with
  | none => d.notFound toStatusClass req
  | some handler =>
      match handler ω d.counters req (d.preparedResponse req) with
      | .ok res => (res, d.updateResponseCounter toStatusClass res)
      | .error _ => d.internalError toStatusClass req

/-- `process` counts the response that it returns, whichever way it comes about. -/
theorem process_snd (d : RequestDispatcher Φ Ω) (ω : Ω) (req : Request Φ) :
    (d.process toStatusClass ω req).2 =
      d.updateResponseCounter toStatusClass (d.process toStatusClass ω req).1 := by
  rw [process]
  -- The three ways to a response: no handler, one that returns and one that raises.
  cases d.findHandler req.target with
  | none => rfl
  | some handler =>
      dsimp only
      cases handler ω d.counters req (d.preparedResponse req) with
      | ok res => rfl
      | error e => rfl

/-- A request for which a handler is found gets the response that the handler makes. -/
theorem process_of_found {d : RequestDispatcher Φ Ω} {req : Request Φ} {handler : RequestHandler Φ Ω}
    (h : d.findHandler req.target = some handler) (ω : Ω) :
    (d.process toStatusClass ω req).1 = d.handled handler ω req := by
  rw [process, h, handled]
  dsimp only
  cases handler ω d.counters req (d.preparedResponse req) with
  | ok res => rfl
  | error e => rfl

end Classified

end RequestDispatcher

end JayBeams.Ehs
