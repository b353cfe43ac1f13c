import JayBeams.Ehs.RequestDispatcher
import JayBeams.Library.Machine
import Mathlib.Data.List.Basic

/-!
# Accounting of the HTTP server

The server is a machine. Its steps are the completions of accepts, reads and writes, the registration
of handlers, and the parts of a completed read that the threads of the `io_service` can interleave:
`count_read_ok`, the search for the handler, the call of the handler and the count of its response.

Every read that is counted is followed by the count of one response, so that the counters differ by
the requests in between (`balanced_run`). A write is counted when it fails. `count_write_ok` has no
caller, so that the writes that complete are more than those counted by the ones that succeed
(`writes_run`).
-/

set_option autoImplicit false

namespace JayBeams.Ehs

open Machines Machines.Machine

/-- `boost::system::error_code`: its value, which is zero when there is no error -/
abbrev ErrorCode := Int

/-- Where a `connection` stands: in `async_read`, in the parts of `on_read`, in `async_write`, after a
failed read, and destroyed. -/
inductive Connection (Φ Ω : Type) where
  | reading
  | counted (req : Request Φ)
  | handling (req : Request Φ) (handler : RequestHandler Φ Ω)
  | responding (res : Response Φ)
  | writing (res : Response Φ)
  | done
  | closed

/-- The connection has a request that was counted and a response that was not. -/
def Connection.inProcess {Φ Ω : Type} : Connection Φ Ω → Bool
  | .counted _ => true
  | .handling _ _ => true
  | .responding _ => true
  | _ => false

/-- The dispatcher, the connections in the order in which they were made, and the state of the
`acceptor`: whether it is open and whether it waits for a connection. -/
structure Server (Φ Ω : Type) where
  dispatcher : RequestDispatcher Φ Ω
  connections : List (Connection Φ Ω)
  isOpen : Bool
  accepting : Bool

/-- The steps of the server. The index is that of a connection. -/
inductive Action (Φ Ω : Type) where
  | addHandler (path : String) (handler : RequestHandler Φ Ω)
  | shutdown
  | onAccept (ec : ErrorCode)
  | onRead (i : Nat) (ec : ErrorCode) (req : Request Φ)
  | findHandler (i : Nat)
  | callHandler (i : Nat) (ω : Ω)
  | countResponse (i : Nat)
  | onWrite (i : Nat) (ec : ErrorCode)
  | destroy (i : Nat)

namespace Action

variable {Φ Ω : Type}

/-- A write that completes -/
def isWrite : Action Φ Ω → Bool
  | .onWrite _ _ => true
  | _ => false

/-- A write that completes with an error -/
def isFailedWrite : Action Φ Ω → Bool
  | .onWrite _ ec => ec ≠ 0
  | _ => false

/-- A write that completes without an error -/
def isSuccessfulWrite : Action Φ Ω → Bool
  | .onWrite _ ec => ec = 0
  | _ => false

end Action

namespace Server

variable {Φ Ω : Type}

/-- A server that listens, without handlers. -/
def start (serverName : String) : Server Φ Ω := ⟨RequestDispatcher.make serverName, [], true, true⟩

/-- The counters of the dispatcher -/
def counters (srv : Server Φ Ω) : Counters := srv.dispatcher.counters

/-- Change the counters. -/
def count (srv : Server Φ Ω) (change : Counters → Counters) : Server Φ Ω :=
  { srv with dispatcher := { srv.dispatcher with counters := change srv.counters } }

/-- A connection goes on. -/
def goOn (srv : Server Φ Ω) (i : Nat) (c : Connection Φ Ω) : Server Φ Ω :=
  { srv with connections := srv.connections.set i c }

/-- The requests that were counted and whose responses were not -/
def inProcess (srv : Server Φ Ω) : Nat := srv.connections.countP Connection.inProcess

/-- `acceptor::on_accept` -/
def onAccept (srv : Server Φ Ω) (ec : ErrorCode) : Server Φ Ω :=
  -- The acceptor was closed while it waited, and it is not asked to wait again.
  if !srv.isOpen then
    { srv.count fun k => { k with acceptClosed := k.acceptClosed + 1 } with accepting := false }
  else if ec = 0 then
    { srv.count fun k =>
        { k with openConnection := k.openConnection + 1, acceptOk := k.acceptOk + 1 } with
      connections := srv.connections ++ [.reading] }
  else srv.count fun k => { k with acceptError := k.acceptError + 1 }

/-- `connection::on_read`, up to the call of `process` -/
def onRead (srv : Server Φ Ω) (i : Nat) (ec : ErrorCode) (req : Request Φ) : Server Φ Ω :=
  if ec ≠ 0 then
    (srv.count fun k => { k with readError := k.readError + 1 }).goOn i .done
  else (srv.count fun k => { k with readOk := k.readOk + 1 }).goOn i (.counted req)

/-- `connection::on_write`; whether the write failed or not, the connection reads again. -/
def onWrite (srv : Server Φ Ω) (i : Nat) (ec : ErrorCode) : Server Φ Ω :=
  -- A write that succeeds is not counted: nothing calls `count_write_ok`.
  let srv := if ec ≠ 0 then srv.count fun k => { k with writeError := k.writeError + 1 } else srv
  srv.goOn i .reading

/-- `content_length` is set before a response is written. -/
def completed [HeaderFields Φ] (res : Response Φ) : Response Φ :=
  res.set "Content-Length" (toString res.body.utf8ByteSize)

/-- Whether a step can happen: a completion is one of an operation in progress. -/
def Possible (srv : Server Φ Ω) : Action Φ Ω → Prop
  | .addHandler _ _ => True
  | .shutdown => True
  | .onAccept _ => srv.accepting = true
  | .onRead i _ _ => srv.connections[i]? = some .reading
  | .findHandler i => ∃ req, srv.connections[i]? = some (.counted req)
  | .callHandler i _ => ∃ req handler, srv.connections[i]? = some (.handling req handler)
  | .countResponse i => ∃ res, srv.connections[i]? = some (.responding res)
  | .onWrite i _ => ∃ res, srv.connections[i]? = some (.writing res)
  | .destroy i => srv.connections[i]? = some .done

section Run

variable [HeaderFields Φ] (toStatusClass : Nat → StatusClass)

/-- A step of the server. A step that is not possible leaves it as it is. -/
def step (srv : Server Φ Ω) : Action Φ Ω → Server Φ Ω
  | .addHandler path handler =>
      match srv.dispatcher.addHandler path handler with
      | .ok d => { srv with dispatcher := d }
      -- The path has a handler already. The exception leaves the dispatcher as it was.
      | .error _ => srv
  | .shutdown => { srv with isOpen := false }
  | .onAccept ec => srv.onAccept ec
  | .onRead i ec req => srv.onRead i ec req
  | .findHandler i =>
      match srv.connections[i]? with
      | some (.counted req) =>
          match srv.dispatcher.findHandler req.target with
          | none => srv.goOn i (.responding (srv.dispatcher.notFoundResponse req))
          | some handler => srv.goOn i (.handling req handler)
      | _ => srv
  | .callHandler i ω =>
      match srv.connections[i]? with
      | some (.handling req handler) =>
          srv.goOn i (.responding (srv.dispatcher.handled handler ω req))
      | _ => srv
  | .countResponse i =>
      match srv.connections[i]? with
      | some (.responding res) =>
          { srv with dispatcher := srv.dispatcher.updateResponseCounter toStatusClass res }.goOn i
            (.writing (completed res))
      | _ => srv
  | .onWrite i ec => srv.onWrite i ec
  | .destroy i =>
      (srv.count fun k => { k with closeConnection := k.closeConnection + 1 }).goOn i .closed

/-- The server as a machine -/
def machine : Machine (Server Φ Ω) (Action Φ Ω) Unit := ⟨fun srv a => ((), srv.step toStatusClass a)⟩

/-- The state of the server after a run -/
def run (srv : Server Φ Ω) (actions : List (Action Φ Ω)) : Server Φ Ω :=
  ((machine toStatusClass).run srv actions).2

/-- Every step of a run is possible where it happens. -/
def Runs (srv : Server Φ Ω) (actions : List (Action Φ Ω)) : Prop :=
  (machine toStatusClass).Along Possible srv actions

end Run

/-- The parts of a completed read, without steps of others in between, are a call of `process`. -/
theorem run_process [HeaderFields Φ] (toStatusClass : Nat → StatusClass) {srv : Server Φ Ω} {i : Nat}
    {req : Request Φ} (hc : srv.connections[i]? = some (.counted req)) (ω : Ω) :
    srv.run toStatusClass [.findHandler i, .callHandler i ω, .countResponse i] =
      { srv with dispatcher := (srv.dispatcher.process toStatusClass ω req).2 }.goOn i
        (.writing (completed (srv.dispatcher.process toStatusClass ω req).1)) := by
  have hset : ∀ c : Connection Φ Ω, (srv.connections.set i c)[i]? = some c := by
    intro c
    obtain ⟨hi, -⟩ := List.getElem?_eq_some_iff.1 hc
    exact List.getElem?_set_self hi
  rw [RequestDispatcher.process_snd]
  simp only [run, machine, run_cons, run_nil]
  cases hfound : srv.dispatcher.findHandler req.target with
  | none =>
      simp [step, hc, hfound, goOn, hset, RequestDispatcher.process, RequestDispatcher.notFound]
  | some handler =>
      rw [RequestDispatcher.process_of_found toStatusClass hfound]
      simp [step, hc, hfound, goOn, hset]

/-! ## Reads and responses -/

@[simp] theorem counters_goOn (srv : Server Φ Ω) (i : Nat) (c : Connection Φ Ω) :
    (srv.goOn i c).counters = srv.counters :=
  rfl

@[simp] theorem counters_count (srv : Server Φ Ω) (change : Counters → Counters) :
    (srv.count change).counters = change srv.counters :=
  rfl

@[simp] theorem inProcess_count (srv : Server Φ Ω) (change : Counters → Counters) :
    (srv.count change).inProcess = srv.inProcess :=
  rfl

/-- The count of requests in process, when one connection goes on. -/
theorem inProcess_goOn (srv : Server Φ Ω) {i : Nat} {c : Connection Φ Ω}
    (h : srv.connections[i]? = some c) (c' : Connection Φ Ω) :
    (srv.goOn i c').inProcess + c.inProcess.toNat = srv.inProcess + c'.inProcess.toNat := by
  obtain ⟨hi, rfl⟩ := List.getElem?_eq_some_iff.1 h
  have hset := List.countP_set (p := Connection.inProcess) (a := c') hi
  have hle : (srv.connections[i]).inProcess.toNat ≤ srv.inProcess := by
    cases hc : (srv.connections[i]).inProcess with
    | false => exact Nat.zero_le _
    | true => exact List.countP_pos_iff.2 ⟨_, List.getElem_mem hi, hc⟩
  show (srv.connections.set i c').countP Connection.inProcess + _ = _
  rw [hset]
  change srv.inProcess - _ + _ + _ = _
  -- Only two bits are left: whether the connection is in process before and after.
  generalize srv.inProcess = n at hle ⊢
  generalize (srv.connections[i]).inProcess = before at hle ⊢
  generalize c'.inProcess = after
  cases before <;> cases after <;> simp at hle ⊢
  all_goals omega

/-- The reads that were counted are those whose responses were, and those in process. -/
def Balanced (srv : Server Φ Ω) : Prop :=
  srv.counters.readOk = srv.counters.responses + srv.inProcess

theorem balanced_start (serverName : String) : Balanced (start serverName : Server Φ Ω) := rfl

/-- A step that goes on with a connection, changes the counters as its request does, and keeps the
balance. -/
theorem Balanced.goOn {srv : Server Φ Ω} {i : Nat} {c : Connection Φ Ω} (h : Balanced srv)
    (hc : srv.connections[i]? = some c) {c' : Connection Φ Ω} (change : Counters → Counters)
    (hchange : (change srv.counters).readOk + srv.counters.responses + c.inProcess.toNat =
      srv.counters.readOk + (change srv.counters).responses + c'.inProcess.toNat) :
    Balanced ((srv.count change).goOn i c') := by
  have hset := inProcess_goOn (srv.count change) hc c'
  rw [inProcess_count] at hset
  -- The counters and the requests in process change by as much as the connection does.
  unfold Balanced at *
  rw [counters_goOn, counters_count]
  omega

theorem balanced_onAccept {srv : Server Φ Ω} (h : Balanced srv) (ec : ErrorCode) :
    Balanced (srv.onAccept ec) := by
  unfold onAccept
  split
  · exact h
  · split
    · -- the new connection is not in process
      have hnew : (srv.connections ++ [Connection.reading]).countP Connection.inProcess =
          srv.inProcess := by
        rw [List.countP_append]
        rfl
      show srv.counters.readOk = srv.counters.responses + _
      rw [h]
      exact congrArg _ hnew.symm
    · exact h

theorem balanced_onRead {srv : Server Φ Ω} (h : Balanced srv) {i : Nat}
    (hc : srv.connections[i]? = some .reading) (ec : ErrorCode) (req : Request Φ) :
    Balanced (srv.onRead i ec req) := by
  unfold onRead
  split
  · exact h.goOn hc _ rfl
  · apply h.goOn hc
    show srv.counters.readOk + 1 + srv.counters.responses + 0 =
      srv.counters.readOk + srv.counters.responses + 1
    omega

theorem balanced_onWrite {srv : Server Φ Ω} (h : Balanced srv) {i : Nat} {res : Response Φ}
    (hc : srv.connections[i]? = some (.writing res)) (ec : ErrorCode) :
    Balanced (srv.onWrite i ec) := by
  unfold onWrite
  split
  · exact h.goOn hc _ rfl
  · exact h.goOn hc id rfl

/-- Every step keeps the balance: a read is counted where a request gets in process, and a response
where it leaves. -/
theorem balanced_step [HeaderFields Φ] (toStatusClass : Nat → StatusClass) {srv : Server Φ Ω}
    {a : Action Φ Ω} (h : Balanced srv) (ha : srv.Possible a) : Balanced (srv.step toStatusClass a) := by
  cases a with
  | addHandler path handler =>
      rw [step, RequestDispatcher.addHandler]
      cases srv.dispatcher.handlers path with
      | none => exact h
      | some _ => exact h
  | shutdown => exact h
  | onAccept ec => exact balanced_onAccept h ec
  | onRead i ec req => exact balanced_onRead h ha ec req
  | findHandler i =>
      obtain ⟨req, hc⟩ := ha
      simp only [step, hc]
      cases srv.dispatcher.findHandler req.target with
      | none => exact h.goOn hc id rfl
      | some handler => exact h.goOn hc id rfl
  | callHandler i ω =>
      obtain ⟨req, handler, hc⟩ := ha
      simp only [step, hc]
      exact h.goOn hc id rfl
  | countResponse i =>
      obtain ⟨res, hc⟩ := ha
      simp only [step, hc]
      apply h.goOn hc fun k => k.countResponse (toStatusClass res.result)
      rw [Counters.responses_countResponse, Counters.readOk_countResponse]
      rfl
  | onWrite i ec =>
      obtain ⟨res, hc⟩ := ha
      exact balanced_onWrite h hc ec
  | destroy i => exact h.goOn ha _ rfl

theorem balanced_run [HeaderFields Φ] (toStatusClass : Nat → StatusClass) {srv : Server Φ Ω}
    {actions : List (Action Φ Ω)} (hruns : Runs toStatusClass srv actions) (h : Balanced srv) :
    Balanced (srv.run toStatusClass actions) := by
  -- Possible steps keep the balance, whatever the threads interleave.
  refine run_invariant (M := machine toStatusClass) (P := Possible) ?_ hruns h
  intro srv a h ha
  exact balanced_step toStatusClass h ha

/-! ## Writes -/

/-- The writes of a run that complete -/
def completedWrites (actions : List (Action Φ Ω)) : Nat := actions.countP Action.isWrite

/-- A step counts a write as failed when it is one that completes with an error, and never as
successful. -/
theorem writes_step [HeaderFields Φ] (toStatusClass : Nat → StatusClass) (srv : Server Φ Ω)
    (a : Action Φ Ω) :
    (srv.step toStatusClass a).counters.writeError =
        srv.counters.writeError + a.isFailedWrite.toNat ∧
      (srv.step toStatusClass a).counters.writeOk = srv.counters.writeOk := by
  cases a with
  | addHandler path handler =>
      rw [step, RequestDispatcher.addHandler]
      cases srv.dispatcher.handlers path with
      | none => exact ⟨rfl, rfl⟩
      | some _ => exact ⟨rfl, rfl⟩
  | shutdown => exact ⟨rfl, rfl⟩
  | onAccept ec =>
      rw [step, onAccept]
      split
      · exact ⟨rfl, rfl⟩
      · split
        · exact ⟨rfl, rfl⟩
        · exact ⟨rfl, rfl⟩
  | onRead i ec req =>
      rw [step, onRead]
      split
      · exact ⟨rfl, rfl⟩
      · exact ⟨rfl, rfl⟩
  | findHandler i =>
      rw [step]
      split
      · split
        · exact ⟨rfl, rfl⟩
        · exact ⟨rfl, rfl⟩
      · exact ⟨rfl, rfl⟩
  | callHandler i ω =>
      rw [step]
      split
      · exact ⟨rfl, rfl⟩
      · exact ⟨rfl, rfl⟩
  | countResponse i =>
      rw [step]
      split
      · exact ⟨Counters.writeError_countResponse _ _, Counters.writeOk_countResponse _ _⟩
      · exact ⟨rfl, rfl⟩
  | onWrite i ec =>
      rw [step, onWrite]
      by_cases hec : ec ≠ 0
      · simp [hec, Action.isFailedWrite]
      · simp [hec, Action.isFailedWrite]
  | destroy i => exact ⟨rfl, rfl⟩

/-- Over a run the writes that complete with an error are counted, and no others. -/
theorem writes_run [HeaderFields Φ] (toStatusClass : Nat → StatusClass) (srv : Server Φ Ω)
    (actions : List (Action Φ Ω)) :
    (srv.run toStatusClass actions).counters.writeError =
        srv.counters.writeError + actions.countP Action.isFailedWrite ∧
      (srv.run toStatusClass actions).counters.writeOk = srv.counters.writeOk := by
  induction actions generalizing srv with
  | nil => exact ⟨rfl, rfl⟩
  | cons a actions ih =>
      -- The first step is counted, and the run goes on from where it leads.
      obtain ⟨herror, hok⟩ := writes_step toStatusClass srv a
      obtain ⟨ihError, ihOk⟩ := ih (srv.step toStatusClass a)
      rw [List.countP_cons]
      refine ⟨ihError.trans ?_, ihOk.trans hok⟩
      rw [herror]
      cases a.isFailedWrite with
      | false => simp
      | true =>
          simp
          omega

/-- A write completes with an error or without. -/
theorem completedWrites_eq (actions : List (Action Φ Ω)) :
    completedWrites actions =
      actions.countP Action.isFailedWrite + actions.countP Action.isSuccessfulWrite := by
  induction actions with
  | nil => rfl
  | cons a actions ih =>
      rw [completedWrites] at ih
      rw [completedWrites, List.countP_cons, List.countP_cons, List.countP_cons, ih]
      cases a with
      | onWrite i ec =>
          by_cases hec : ec = 0
          · simp [Action.isWrite, Action.isFailedWrite, Action.isSuccessfulWrite, hec]
            omega
          · simp [Action.isWrite, Action.isFailedWrite, Action.isSuccessfulWrite, hec]
            omega
      | _ => rfl

/-! ## The accounts -/

/-- The accounts of a run: the reads that were counted are the responses that were, except while
requests are in process, and the writes that completed are those that were counted. -/
structure Accounted (srv : Server Φ Ω) (actions : List (Action Φ Ω)) : Prop where
  reads : srv.inProcess = 0 → srv.counters.readOk = srv.counters.responses
  writes : completedWrites actions = srv.counters.writeOk + srv.counters.writeError

/-- Over every run the reads are accounted for, with those in process. The writes are exactly as long as
none of them succeeds. -/
theorem accounted_iff [HeaderFields Φ] (toStatusClass : Nat → StatusClass) (serverName : String)
    (actions : List (Action Φ Ω)) (hruns : Runs toStatusClass (start serverName) actions) :
    Balanced ((start serverName).run toStatusClass actions) ∧
      (Accounted ((start serverName).run toStatusClass actions) actions ↔
        ∀ a ∈ actions, a.isSuccessfulWrite = false) := by
  have hbalanced := balanced_run toStatusClass hruns (balanced_start serverName)
  obtain ⟨herror, hok⟩ := writes_run toStatusClass (start serverName) actions
  have hzero : (start serverName : Server Φ Ω).counters = Counters.zero := rfl
  rw [hzero] at herror hok
  -- what is missing from the accounts are the writes that succeed
  have hwrites : completedWrites actions =
      ((start serverName).run toStatusClass actions).counters.writeOk +
        ((start serverName).run toStatusClass actions).counters.writeError ↔
      actions.countP Action.isSuccessfulWrite = 0 := by
    rw [completedWrites_eq, herror, hok]
    show _ ↔ _
    simp only [Counters.zero]
    omega
  have hnone : actions.countP Action.isSuccessfulWrite = 0 ↔
      ∀ a ∈ actions, a.isSuccessfulWrite = false := by
    rw [List.countP_eq_zero]
    constructor
    · intro h a ha
      exact Bool.not_eq_true _ ▸ h a ha
    · intro h a ha
      rw [h a ha]
      exact Bool.false_ne_true
  refine ⟨hbalanced, ?_, ?_⟩
  · intro haccounted
    exact hnone.1 (hwrites.1 haccounted.writes)
  · intro h
    refine ⟨fun hidle => ?_, hwrites.2 (hnone.2 h)⟩
    unfold Balanced at hbalanced
    rw [hbalanced, hidle, Nat.add_zero]

/-! ## Runs -/

/-- Header fields as a list of names and values -/
abbrev FieldList := List (String × String)

/-- `set` replaces the fields of that name. -/
instance instHeaderFieldsFieldList : HeaderFields FieldList where
  empty := []
  insert fields name value := fields ++ [(name, value)]
  set fields name value := fields.filter (fun field => field.1 ≠ name) ++ [(name, value)]

/-- The class of a status by its range -/
def statusClassByRange (result : Nat) : StatusClass :=
  match result / 100 with
  | 1 => .informational
  | 2 => .successful
  | 3 => .redirection
  | 4 => .clientError
  | 5 => .serverError
  | _ => .unknown

/-- Two connections with requests at the same time, one of them with a handler that raises, whose
responses both fail to be written -/
def failingRun : List (Action FieldList Unit) :=
  [.onAccept 0, .onAccept 0, .addHandler "/" fun _ _ _ _ => .error ⟨"raised"⟩,
    .onRead 0 0 ⟨"/", 11, [], ""⟩, .onRead 1 0 ⟨"/missing", 11, [], ""⟩, .findHandler 1, .findHandler 0,
    .countResponse 1, .callHandler 0 (), .countResponse 0, .onWrite 1 32, .onWrite 0 104]

theorem accounted_iff_failingRun :
    Balanced ((start "server").run statusClassByRange failingRun) ∧
      (Accounted ((start "server").run statusClassByRange failingRun) failingRun ↔
        ∀ a ∈ failingRun, a.isSuccessfulWrite = false) :=
  accounted_iff statusClassByRange "server" failingRun
    ⟨rfl, rfl, trivial, rfl, rfl, ⟨_, rfl⟩, ⟨_, rfl⟩, ⟨_, rfl⟩, ⟨_, _, rfl⟩, ⟨_, rfl⟩, ⟨_, rfl⟩,
      ⟨_, rfl⟩, trivial⟩

/-- A request whose response is written -/
def writtenRun : List (Action FieldList Unit) :=
  [.onAccept 0, .onRead 0 0 ⟨"/", 11, [], ""⟩, .findHandler 0, .countResponse 0, .onWrite 0 0]

/-- One write completes and none is counted. -/
theorem not_accounted_writtenRun :
    ¬ ∀ (toStatusClass : Nat → StatusClass) (serverName : String)
      (actions : List (Action FieldList Unit)), Runs toStatusClass (start serverName) actions →
        Accounted ((start serverName).run toStatusClass actions) actions := by
  intro h
  have haccounted := h statusClassByRange "server" writtenRun
    ⟨rfl, rfl, ⟨_, rfl⟩, ⟨_, rfl⟩, ⟨_, rfl⟩, trivial⟩
  have hwrites : (1 : Nat) = 0 := haccounted.writes
  exact absurd hwrites (by decide)

end Server

end JayBeams.Ehs
