import JayBeams.Common
import JayBeams.Library.Machine

/-!
# Control of the replay sessions

The replay server runs one session at a time in a thread of its own. Requests to start a session, to
stop it and to report its status interleave with the steps of the threads. Every section that holds
the mutex is one step of the machine, as is the setup of a thread, a message that a session replays
and the end of a session. What the environment decides (whether a session can be constructed, a thread
launched or set up) is part of the action.

A run keeps the control in a safe state as long as no launch and no setup of a thread fails and no
session is stopped before its thread starts it (`safe_iff`). After one of these the control is left
without a session and not idle, and it stays so (`stuck_run`).
-/

set_option autoImplicit false

namespace JayBeams.Itch5

open Machines Machines.Machine

/-- `beast::http::status`, the members used -/
inductive HttpStatus where
  | ok
  | preconditionRequired
  deriving DecidableEq, Repr

/-- `jb::ehs::response_type` -/
structure Response where
  result : HttpStatus
  contentType : Option String
  body : String
  deriving DecidableEq, Repr

/-- `session`: its stop flag and the last message that it processed -/
structure Session where
  stop : Bool
  lastMessageCount : UInt32
  lastMessageOffset : UInt64
  deriving DecidableEq, Repr

/-- Where the thread of a session stands: before the thread is set up, before `start_check`, in
`session::start`, and before `replay_done`. -/
inductive Phase where
  | setup
  | check
  | run
  | done
  deriving DecidableEq, Repr

/-- A thread with its session. -/
structure SessionThread where
  session : Nat
  phase : Phase
  deriving DecidableEq, Repr

/-- `replayer_control::state` -/
inductive ReplayerState where
  | idle
  | starting
  | replaying
  | stopping
  deriving DecidableEq, Repr

/-- `replayer_control`, the sessions made so far, by which `session_` and the threads refer to them,
and the threads that run. -/
structure ReplayerControl where
  currentState : ReplayerState
  session : Option Nat
  sessions : List Session
  threads : List SessionThread
  deriving DecidableEq, Repr

namespace ReplayerControl

/-- The constructor -/
def make : ReplayerControl := ⟨.idle, none, [], []⟩

/-! ## Requests -/

/-- `start`, where the session can be constructed and its thread launched or not -/
def start (constructed launched : Bool) : EStateM Failure ReplayerControl Response := do
  let c ← get
  if c.currentState ≠ .idle then
    return ⟨.preconditionRequired, none, "request rejected, current status is not idle\n"⟩
  -- a failure up to this point leaves the state as it was
  if !constructed then throw (.external "session")
  set { c with currentState := .starting, sessions := c.sessions ++ [Session.mk false 0 0] }
  if !launched then throw (.external "launch_thread")
  modify fun c' =>
    { c' with
      threads := c'.threads ++ [⟨c.sessions.length, .setup⟩]
      session := some c.sessions.length }
  return ⟨.ok, none, "request succeeded, started new session\n"⟩

/-- `stop` -/
def stop : EStateM Failure ReplayerControl Response := do
  let c ← get
  if c.currentState ≠ .replaying ∧ c.currentState ≠ .starting then
    return ⟨.preconditionRequired, none, "request rejected, current status is not valid\n"⟩
  set { c with currentState := .stopping }
  match c.session with
  | none => throw (.assertion "session_.get() != 0")
  | some s =>
      modify fun c =>
      { c with sessions := c.sessions.modify s fun session => { session with stop := true } }
      return ⟨.ok, none, "request succeeded, stopping current session\n"⟩

/-- The lines of `status` about a state other than idle. -/
def describe : ReplayerState → String
  | .idle => ""
  | .starting => "starting\nMessages arriving shortly\n"
  | .stopping => "stopping\nMessages will stop flowing\n"
  | .replaying => "replaying\n"

/-- `status` -/
def status : EStateM Failure ReplayerControl Response := do
  let c ← get
  if c.currentState = .idle then
    return ⟨.ok, some "text/plain", "idle\nNothing to see here folks\n"⟩
  match c.session.bind fun s => c.sessions[s]? with
  | none => throw (.assertion "session_.get() != 0")
  | some session =>
      return ⟨.ok, some "text/plain", describe c.currentState ++
        s!"  last-count: {session.lastMessageCount}\n" ++
        s!"  last-offset: {session.lastMessageOffset}\n" ++ "\n"⟩

/-! ## Threads -/

/-- `start_check` -/
def startCheck : EStateM Failure ReplayerControl Bool := do
  let c ← get
  if c.currentState ≠ .starting then return false
  set { c with currentState := .replaying }
  return true

/-- `replay_done` -/
def replayDone : EStateM Failure ReplayerControl Unit :=
  modify fun c => { c with currentState := .idle, session := none }

/-- The thread at a position, if it stands at the given point. -/
def threadAt (c : ReplayerControl) (i : Nat) (phase : Phase) : Option SessionThread :=
  c.threads[i]?.filter fun thread => thread.phase = phase

/-- Move a thread on. -/
def goTo (i : Nat) (phase : Phase) : EStateM Failure ReplayerControl Unit :=
  modify fun c => { c with threads := c.threads.modify i fun thread => { thread with phase := phase } }

/-- End a thread. -/
def endThread (i : Nat) : EStateM Failure ReplayerControl Unit :=
  modify fun c => { c with threads := c.threads.eraseIdx i }

/-- `handle_unknown` of a session, but for the packets that it sends: a session that was stopped
raises, which ends `session::start`. -/
def handleUnknown (i : Nat) (thread : SessionThread) (count : UInt32) (offset : UInt64) :
    EStateM Failure ReplayerControl Unit := do
  let c ← get
  if c.sessions[thread.session]?.any Session.stop then goTo i .done
  else
    modify fun c =>
      { c with
        sessions := c.sessions.modify thread.session fun session =>
          { session with lastMessageCount := count, lastMessageOffset := offset } }

/-- The steps of the system. -/
inductive Action where
  | start (constructed launched : Bool)
  | stop
  | status
  | setup (thread : Nat) (succeeds : Bool)
  | check (thread : Nat)
  | handleUnknown (thread : Nat) (count : UInt32) (offset : UInt64)
  | finish (thread : Nat)
  | done (thread : Nat)

/-- A step of the thread at a position; it does nothing when the thread does not stand there. -/
def threadStep (i : Nat) (phase : Phase)
    (act : SessionThread → EStateM Failure ReplayerControl Unit) :
    EStateM Failure ReplayerControl (Option Response) := do
  let c ← get
  match c.threadAt i phase with
  | none => return none
  | some thread => do
      act thread
      return none

/-- Take a step; a request returns its response. -/
def act : Action → EStateM Failure ReplayerControl (Option Response)
  | .start constructed launched => some <$> start constructed launched
  | .stop => some <$> stop
  | .status => some <$> status
  -- an exception in the setup of a thread is logged, and the thread ends
  | .setup i succeeds => threadStep i .setup fun _ => if succeeds then goTo i .check else endThread i
  | .check i => threadStep i .check fun _ => do
      let started ← startCheck
      if started then goTo i .run else endThread i
  | .handleUnknown i count offset => threadStep i .run fun thread => handleUnknown i thread count offset
  | .finish i => threadStep i .run fun _ => goTo i .done
  | .done i => threadStep i .done fun _ => do
      replayDone
      endThread i

/-- The control and its threads as a machine. -/
def machine : Machine ReplayerControl Action (Except Failure (Option Response)) :=
  Machine.ofAction act

/-! ## Safe states -/

/-- A request to start a session is accepted, and starts it. -/
def AcceptsStart (c : ReplayerControl) : Prop :=
  (machine.step c (.start true true)).1 =
    .ok (some ⟨.ok, none, "request succeeded, started new session\n"⟩)

/-- What the control promises of every state. -/
structure Safe (c : ReplayerControl) : Prop where
  one : c.threads.length ≤ 1
  session : c.session.isSome = true ↔ c.currentState ≠ .idle
  idle : c.threads = [] → c.currentState = .idle
  accepts : c.threads = [] → c.AcceptsStart

/-- The step does not leave the control without a session: no launch and no setup of a thread fails,
and a thread that comes to start its session finds that it is still to be started. -/
def Proceeds (c : ReplayerControl) : Action → Prop
  | .start constructed launched => c.currentState = .idle → constructed = true → launched = true
  | .setup i succeeds => (c.threadAt i .setup).isSome → succeeds = true
  | .check i => (c.threadAt i .check).isSome → c.currentState = .starting
  | _ => True

/-- The states that are reached as long as all steps proceed: without a session, before its thread
starts it, and while the thread runs it. -/
inductive Reached : ReplayerControl → Prop
  | idle (sessions : List Session) : Reached ⟨.idle, none, sessions, []⟩
  | launched {st : ReplayerState} {phase : Phase} (s : Nat) (sessions : List Session)
      (hst : st = .starting ∨ st = .stopping) (hphase : phase = .setup ∨ phase = .check) :
      Reached ⟨st, some s, sessions, [⟨s, phase⟩]⟩
  | running {st : ReplayerState} {phase : Phase} (s : Nat) (sessions : List Session)
      (hst : st = .replaying ∨ st = .stopping) (hphase : phase = .run ∨ phase = .done) :
      Reached ⟨st, some s, sessions, [⟨s, phase⟩]⟩

theorem acceptsStart_iff {c : ReplayerControl} : c.AcceptsStart ↔ c.currentState = .idle := by
  obtain ⟨st, session, sessions, threads⟩ := c
  cases st with
  | idle => exact ⟨fun _ => rfl, fun _ => rfl⟩
  | starting => exact ⟨fun h => (nomatch h), fun h => (nomatch h)⟩
  | replaying => exact ⟨fun h => (nomatch h), fun h => (nomatch h)⟩
  | stopping => exact ⟨fun h => (nomatch h), fun h => (nomatch h)⟩

theorem Reached.safe {c : ReplayerControl} (h : Reached c) : Safe c := by
  cases h with
  | idle sessions =>
      exact ⟨Nat.zero_le 1, by simp, fun _ => rfl, fun _ => acceptsStart_iff.2 rfl⟩
  | launched s sessions hst hphase =>
      refine ⟨Nat.le_refl 1, ?_, by simp, by simp⟩
      rcases hst with rfl | rfl <;> simp
  | running s sessions hst hphase =>
      refine ⟨Nat.le_refl 1, ?_, by simp, by simp⟩
      rcases hst with rfl | rfl <;> simp

/-! ## Steps -/

/-- The state after a step. -/
def next (c : ReplayerControl) (a : Action) : ReplayerControl := (machine.step c a).2

theorem next_eq (c : ReplayerControl) (a : Action) : c.next a = finalState ((act a).run c) := by
  rw [next, machine, ofAction_step_state]

theorem finalState_map (c : ReplayerControl) (x : EStateM Failure ReplayerControl Response) :
    finalState ((some <$> x).run c) = finalState (x.run c) := by
  simp only [Functor.map, EStateM.map, EStateM.run]
  cases x c <;> rfl

/-- A thread that does not stand where a step needs it does nothing. -/
theorem threadStep_none {c : ReplayerControl} {i : Nat} {phase : Phase}
    (h : c.threadAt i phase = none) (f : SessionThread → EStateM Failure ReplayerControl Unit) :
    finalState ((threadStep i phase f).run c) = c := by
  simp only [threadStep, EStateM.run_bind, EStateM.run_get, h]
  rfl

theorem threadStep_some {c : ReplayerControl} {i : Nat} {phase : Phase} {thread : SessionThread}
    (h : c.threadAt i phase = some thread)
    (f : SessionThread → EStateM Failure ReplayerControl Unit) :
    finalState ((threadStep i phase f).run c) = finalState ((f thread).run c) := by
  simp only [threadStep, EStateM.run_bind, EStateM.run_get, h]
  cases (f thread).run c <;> rfl

/-- A control with one thread, which runs the session of the control. -/
abbrev oneThread (st : ReplayerState) (s : Nat) (sessions : List Session) (phase : Phase) :
    ReplayerControl :=
  ⟨st, some s, sessions, [⟨s, phase⟩]⟩

/-- The only thread of a control is its first. -/
theorem threadAt_oneThread {st : ReplayerState} {s : Nat} {sessions : List Session}
    {phase phase' : Phase} {i : Nat} {thread : SessionThread}
    (h : (oneThread st s sessions phase).threadAt i phase' = some thread) :
    i = 0 ∧ phase' = phase ∧ thread = ⟨s, phase⟩ := by
  cases i with
  | zero =>
      simp only [threadAt, List.getElem?_cons_zero, Option.filter_eq_some_iff, Option.some.injEq,
        decide_eq_true_eq] at h
      obtain ⟨rfl, rfl⟩ := h
      exact ⟨rfl, rfl, rfl⟩
  | succ i => simp [threadAt] at h

/-- A thread that has not started its session is the only one, and its session is that of the
control. -/
theorem Reached.before_start {c : ReplayerControl} (h : Reached c) {i : Nat} {phase : Phase}
    (hphase : phase = .setup ∨ phase = .check) {thread : SessionThread}
    (hthread : c.threadAt i phase = some thread) :
    i = 0 ∧ ∃ st s sessions, (st = .starting ∨ st = .stopping) ∧ c = oneThread st s sessions phase := by
  cases h with
  | idle sessions => cases hthread
  | launched s sessions hst _ =>
      obtain ⟨hi, rfl, -⟩ := threadAt_oneThread hthread
      exact ⟨hi, _, s, sessions, hst, rfl⟩
  | running s sessions hst hrun =>
      obtain ⟨-, rfl, -⟩ := threadAt_oneThread hthread
      rcases hrun with rfl | rfl <;> rcases hphase with h | h <;> cases h

/-- So is a thread that runs its session. -/
theorem Reached.after_start {c : ReplayerControl} (h : Reached c) {i : Nat} {phase : Phase}
    (hphase : phase = .run ∨ phase = .done) {thread : SessionThread}
    (hthread : c.threadAt i phase = some thread) :
    i = 0 ∧ ∃ st s sessions, (st = .replaying ∨ st = .stopping) ∧ c = oneThread st s sessions phase := by
  cases h with
  | idle sessions => cases hthread
  | launched s sessions hst hlaunch =>
      obtain ⟨-, rfl, -⟩ := threadAt_oneThread hthread
      rcases hlaunch with rfl | rfl <;> rcases hphase with h | h <;> cases h
  | running s sessions hst _ =>
      obtain ⟨hi, rfl, -⟩ := threadAt_oneThread hthread
      exact ⟨hi, _, s, sessions, hst, rfl⟩

/-- A step of a thread keeps what each step of a thread at that point keeps. -/
theorem Reached.threadStep {c : ReplayerControl} (h : Reached c) {i : Nat} {phase : Phase}
    {f : SessionThread → EStateM Failure ReplayerControl Unit}
    (hf : ∀ thread, c.threadAt i phase = some thread → Reached (finalState ((f thread).run c))) :
    Reached (finalState ((ReplayerControl.threadStep i phase f).run c)) := by
  cases hthread : c.threadAt i phase with
  | none =>
      rw [threadStep_none hthread]
      exact h
  | some thread =>
      rw [threadStep_some hthread]
      exact hf thread hthread

theorem status_run (c : ReplayerControl) : finalState (status.run c) = c := by
  simp only [status, EStateM.run_bind, EStateM.run_get]
  split_ifs
  · rfl
  · cases c.session.bind fun s => c.sessions[s]? <;> rfl

/-- Every step that proceeds ends in a state of the same kind. -/
theorem Reached.next {c : ReplayerControl} (h : Reached c) {a : Action} (hp : c.Proceeds a) :
    Reached (c.next a) := by
  rw [next_eq]
  cases a with
  | start constructed launched =>
      rw [act, finalState_map]
      cases h with
      | idle sessions =>
          cases constructed with
          | false => exact .idle sessions
          | true =>
              -- A session that was constructed is launched, for the action proceeds.
              have hlaunched : launched = true := hp rfl rfl
              subst hlaunched
              exact .launched sessions.length (sessions ++ [Session.mk false 0 0]) (.inl rfl) (.inl rfl)
      | launched s sessions hst hphase =>
          rcases hst with rfl | rfl
          · exact .launched s sessions (.inl rfl) hphase
          · exact .launched s sessions (.inr rfl) hphase
      | running s sessions hst hphase =>
          rcases hst with rfl | rfl
          · exact .running s sessions (.inl rfl) hphase
          · exact .running s sessions (.inr rfl) hphase
  | stop =>
      rw [act, finalState_map]
      cases h with
      | idle sessions => exact .idle sessions
      | launched s sessions hst hphase =>
          rcases hst with rfl | rfl
          · exact .launched s _ (.inr rfl) hphase
          · exact .launched s sessions (.inr rfl) hphase
      | running s sessions hst hphase =>
          rcases hst with rfl | rfl
          · exact .running s _ (.inr rfl) hphase
          · exact .running s sessions (.inr rfl) hphase
  | status =>
      rw [act, finalState_map, status_run]
      exact h
  | setup i succeeds =>
      -- A thread that has not started is the only one there is.
      refine h.threadStep fun thread hthread => ?_
      have hsucceeds : succeeds = true := hp (by rw [hthread]; rfl)
      obtain ⟨rfl, st, s, sessions, hst, rfl⟩ := h.before_start (.inl rfl) hthread
      subst hsucceeds
      exact .launched s sessions hst (.inr rfl)
  | check i =>
      refine h.threadStep fun thread hthread => ?_
      have hstarting : c.currentState = .starting := hp (by rw [hthread]; rfl)
      obtain ⟨rfl, st, s, sessions, hst, rfl⟩ := h.before_start (.inr rfl) hthread
      have hst' : st = .starting := hstarting
      subst hst'
      exact .running s sessions (.inl rfl) (.inl rfl)
  | handleUnknown i count offset =>
      refine h.threadStep fun thread hthread => ?_
      obtain ⟨rfl, st, s, sessions, hst, rfl⟩ := h.after_start (.inl rfl) hthread
      -- The thread goes on to its end when it was asked to stop.
      simp only [handleUnknown, EStateM.run_bind, EStateM.run_get]
      split_ifs
      · exact .running s sessions hst (.inr rfl)
      · exact .running s _ hst (.inl rfl)
  | finish i =>
      refine h.threadStep fun thread hthread => ?_
      obtain ⟨rfl, st, s, sessions, hst, rfl⟩ := h.after_start (.inl rfl) hthread
      exact .running s sessions hst (.inr rfl)
  | done i =>
      refine h.threadStep fun thread hthread => ?_
      obtain ⟨rfl, st, s, sessions, hst, rfl⟩ := h.after_start (.inr rfl) hthread
      exact .idle sessions

/-- A control without threads that is not idle is not safe. -/
theorem not_safe_of_stuck {c : ReplayerControl} (hthreads : c.threads = [])
    (hstate : c.currentState ≠ .idle) : ¬ Safe c :=
  fun h => hstate (h.idle hthreads)

/-- Every step that does not proceed leaves the control without a thread and not idle. -/
theorem Reached.stuck {c : ReplayerControl} (h : Reached c) {a : Action} (hp : ¬ c.Proceeds a) :
    (c.next a).threads = [] ∧ (c.next a).currentState ≠ .idle := by
  rw [next_eq]
  cases a with
  | start constructed launched =>
      simp only [Proceeds, Classical.not_imp] at hp
      obtain ⟨hidle, rfl, hlaunched⟩ := hp
      have hlaunched : launched = false := by simpa using hlaunched
      subst hlaunched
      cases h with
      | idle sessions => exact ⟨rfl, (by decide : ReplayerState.starting ≠ .idle)⟩
      | launched s sessions hst _ => rcases hst with rfl | rfl <;> cases hidle
      | running s sessions hst _ => rcases hst with rfl | rfl <;> cases hidle
  | setup i succeeds =>
      simp only [Proceeds, Classical.not_imp] at hp
      obtain ⟨hsome, hfails⟩ := hp
      have hfails : succeeds = false := by simpa using hfails
      obtain ⟨thread, hthread⟩ := Option.isSome_iff_exists.1 hsome
      rw [act, threadStep_some hthread, hfails]
      obtain ⟨rfl, st, s, sessions, hst, rfl⟩ := h.before_start (.inl rfl) hthread
      have hne : st ≠ .idle := by rcases hst with rfl | rfl <;> decide
      exact ⟨rfl, hne⟩
  | check i =>
      simp only [Proceeds, Classical.not_imp] at hp
      obtain ⟨hsome, hstate⟩ := hp
      obtain ⟨thread, hthread⟩ := Option.isSome_iff_exists.1 hsome
      rw [act, threadStep_some hthread]
      obtain ⟨rfl, st, s, sessions, hst, rfl⟩ := h.before_start (.inr rfl) hthread
      rcases hst with rfl | rfl
      · exact absurd rfl hstate
      · exact ⟨rfl, (by decide : ReplayerState.stopping ≠ .idle)⟩
  | stop => exact absurd trivial hp
  | status => exact absurd trivial hp
  | handleUnknown i count offset => exact absurd trivial hp
  | finish i => exact absurd trivial hp
  | done i => exact absurd trivial hp

/-- A run keeps the control in safe states exactly when each of its steps proceeds. -/
theorem safe_iff (actions : List Action) :
    (∀ pre, pre <+: actions → Safe (machine.run make pre).2) ↔
      machine.Along Proceeds make actions := by
  have hsafe : ∀ c, Reached c → Safe c := fun c h => h.safe
  have hkeep : ∀ c a, Reached c → Proceeds c a → Reached (machine.step c a).2 :=
    fun c a h hp => h.next hp
  have hbreak : ∀ c a, Reached c → ¬ Proceeds c a → ¬ Safe (machine.step c a).2 :=
    fun c a h hp => not_safe_of_stuck (h.stuck hp).1 (h.stuck hp).2
  exact along_iff_safe hsafe hkeep hbreak (.idle []) actions

/-- A session whose thread could not be set up, and one that was stopped before its thread started
it, leave a control that has no thread and is not idle. -/
theorem unsafe_runs :
    (machine.run make [.start true true, .setup 0 false]).2 =
      ⟨.starting, some 0, [⟨false, 0, 0⟩], []⟩ ∧
    ¬ Safe (machine.run make [.start true true, .setup 0 false]).2 ∧
    (machine.run make [.start true true, .stop, .setup 0 true, .check 0]).2 =
      ⟨.stopping, some 0, [⟨true, 0, 0⟩], []⟩ ∧
    ¬ Safe (machine.run make [.start true true, .stop, .setup 0 true, .check 0]).2 :=
  ⟨rfl, not_safe_of_stuck rfl (by decide), rfl, not_safe_of_stuck rfl (by decide)⟩

/-! ## Controls that are stuck -/

/-- The control has no thread and is not idle. -/
def Stuck (c : ReplayerControl) : Prop := c.threads = [] ∧ c.currentState ≠ .idle

theorem Stuck.threadStep {c : ReplayerControl} (h : Stuck c) (i : Nat) (phase : Phase)
    (f : SessionThread → EStateM Failure ReplayerControl Unit) :
    Stuck (finalState ((ReplayerControl.threadStep i phase f).run c)) := by
  have hnone : c.threadAt i phase = none := by simp [threadAt, h.1]
  rw [threadStep_none hnone]
  exact h

theorem Stuck.next {c : ReplayerControl} (h : Stuck c) (a : Action) : Stuck (c.next a) := by
  rw [next_eq]
  cases a with
  | start constructed launched =>
      rw [act, finalState_map]
      simp only [start, EStateM.run_bind, EStateM.run_get, if_pos h.2]
      exact h
  | stop =>
      rw [act, finalState_map]
      simp only [stop, EStateM.run_bind, EStateM.run_get]
      split_ifs
      · exact h
      · cases hsession : c.session with
        | none => exact ⟨h.1, (by decide : ReplayerState.stopping ≠ .idle)⟩
        | some s => exact ⟨h.1, (by decide : ReplayerState.stopping ≠ .idle)⟩
  | status =>
      rw [act, finalState_map, status_run]
      exact h
  | setup i succeeds => exact h.threadStep i .setup _
  | check i => exact h.threadStep i .check _
  | handleUnknown i count offset => exact h.threadStep i .run _
  | finish i => exact h.threadStep i .run _
  | done i => exact h.threadStep i .done _

/-- A control that is stuck stays so, and rejects every request to start a session. -/
theorem stuck_run {c : ReplayerControl} (h : Stuck c) (actions : List Action) :
    Stuck (machine.run c actions).2 ∧ ¬ (machine.run c actions).2.AcceptsStart := by
  have hend : Stuck (machine.run c actions).2 := by
    refine run_invariant (fun c a hc _ => hc.next a) (along_of_forall machine (P := fun _ _ => True)
      (fun _ _ _ => trivial) c) h
  exact ⟨hend, fun haccepts => hend.2 (acceptsStart_iff.1 haccepts)⟩

end ReplayerControl

end JayBeams.Itch5
