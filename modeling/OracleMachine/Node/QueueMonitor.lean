import OracleMachine.Lib.Entries
import OracleMachine.Lib.Mutex
import OracleMachine.Lib.Transition
import OracleMachine.Node.QueryCallbacks

/-!
# The lock and the condition variable of an interface client

The queue of an `InterfaceClient` is guarded by `_queueMutex`, and its worker
sleeps on `_queueCondition`.  The machine of `QueryCallbacks` takes the push of a
request and the whole wait of the worker as single steps.  This module has the
steps that the source really makes:

* a caller of `queryAsync` takes the lock, pushes, gives the lock back, notifies
  one waiter, and takes the lock once more to count the queue for its log line;
* the worker takes the lock and tests the predicate of its wait.  If the predicate
  fails it goes to sleep, which gives the lock back; it wakes by a notification or
  for no reason, takes the lock again and tests again.  If the predicate holds it
  takes a request, or leaves, with the lock in its hands;
* `stop` clears `_running` and notifies all waiters, twice, because `forceShutdown`
  does the same; it holds no lock meanwhile.  Then it joins the worker and empties
  the queue under the lock.

A notification that comes between the test and the sleep is lost.

`Inv` is what every step keeps (`inv_step`), in four parts:

* `LockHeld`: the thread between a lock and its unlock is the holder;
* `Controlled`: how far `stop` is, against `_running` and the worker;
* `Signals`: the worker finds the queue as it tested it, and while it sleeps over a
  queue that is not empty, some caller has still to notify it;
* `Known`: a request belongs to a call.
-/

namespace OracleMachine.Node.QueueMonitor

open Lib.Transition Lib.Entries Lib.Mutex
open QueryCallbacks (Kind)

/-! ## The machine -/

/-- Where a call is.  `pushing` and `unlocking` are inside the lock, `notifying` and
`counting` come after it. -/
inductive Phase where
  | entered
  | checked
  | enqueuing
  | pushing
  | unlocking
  | notifying
  | counting
  | waiting
  | returned (ok : Bool)
  deriving DecidableEq

/-- A call and what its callback has stored. -/
structure Call where
  kind : Kind
  phase : Phase
  completed : Option Bool
  deriving DecidableEq

/-- The worker thread.  `locking` is before the lock, `testing` before the predicate
of the wait, `blocking` between a predicate that failed and the sleep, `blocked` the
sleep, `woken` before the lock is taken again, and `ready` behind the wait. -/
inductive Worker where
  | absent
  | top
  | locking
  | testing
  | blocking
  | blocked
  | woken
  | ready
  | processing (call : Nat)
  | invoking (call : Nat) (ok : Bool)
  | exited
  deriving DecidableEq

/-- How far `stop` is: before the two stores and the two notifications, at the join,
and around the lock under which the queue is emptied. -/
inductive Stopping where
  | no
  | clearing
  | notifying
  | clearingAgain
  | notifyingAgain
  | joining
  | locking
  | draining
  | unlocking
  deriving DecidableEq

/-- The threads that take the lock. -/
inductive Thread where
  | worker
  | caller (i : Nat)
  | control
  deriving DecidableEq

/-- The state of the client and its callers.  `invoked` records the callbacks with
the flag that they were given. -/
structure State where
  running : Bool
  queue : List Nat
  holder : Option Thread
  worker : Worker
  stopping : Stopping
  calls : List Call
  invoked : List (Nat × Bool)
  deriving DecidableEq

/-- The steps of a call. -/
inductive CallerStep where
  | check
  | asyncCheck
  | lock
  | push
  | unlock
  | notify
  | count
  | wake
  | expire
  deriving DecidableEq

/-- The steps of the worker.  `wakeup` is a wake-up that nobody asked for. -/
inductive WorkerStep where
  | check
  | lock
  | test
  | block
  | wakeup
  | take
  | process (ok : Bool)
  | invoke
  deriving DecidableEq

/-- The steps of `start` and `stop`. -/
inductive ControlStep where
  | start
  | stopBegin
  | clear
  | notify
  | clearAgain
  | notifyAgain
  | join
  | lock
  | drain
  | unlock
  deriving DecidableEq

/-- A step: a new call, a step of call `i`, of the worker, or of `start` and
`stop`. -/
inductive Label where
  | enter (kind : Kind)
  | caller (i : Nat) (a : CallerStep)
  | worker (a : WorkerStep)
  | control (a : ControlStep)
  deriving DecidableEq

/-- A client that was just constructed. -/
def init : State where
  running := false
  queue := []
  holder := none
  worker := .absent
  stopping := .no
  calls := []
  invoked := []

/-- Where a call goes on when `queryAsync` returns. -/
def afterAsync : Kind → Phase
  | .query _ => .waiting
  | .queryAsync => .returned true

/-- The first phase of a call. -/
def firstPhase : Kind → Phase
  | .query _ => .entered
  | .queryAsync => .checked

/-- A notification reaches the worker in its sleep and is lost otherwise. -/
def Worker.notified : Worker → Worker
  | .blocked => .woken
  | w => w

/-- Replace the call `i`. -/
def State.setCall (s : State) (i : Nat) (c : Call) : State := { s with calls := s.calls.set i c }

/-- A step of the call `i`, which is at `c`. -/
def callerStep (s : State) (i : Nat) (c : Call) : CallerStep → Option State
  | .check =>
    if c.phase = .entered then
      some (s.setCall i { c with phase := if s.running then .checked else .returned false })
    else none
  | .asyncCheck =>
    if c.phase = .checked then
      if s.running then some (s.setCall i { c with phase := .enqueuing })
      else
        -- worker thread not running: the caller invokes the callback itself
        some { s.setCall i { c with completed := some false, phase := afterAsync c.kind } with
          invoked := s.invoked ++ [(i, false)] }
    else none
  | .lock =>
    if c.phase = .enqueuing ∧ s.holder = none then
      some { s.setCall i { c with phase := .pushing } with holder := some (.caller i) }
    else none
  | .push =>
    if c.phase = .pushing then
      some { s.setCall i { c with phase := .unlocking } with queue := s.queue ++ [i] }
    else none
  | .unlock =>
    if c.phase = .unlocking then
      some { s.setCall i { c with phase := .notifying } with holder := none }
    else none
  | .notify =>
    if c.phase = .notifying then
      some { s.setCall i { c with phase := .counting } with worker := s.worker.notified }
    else none
  | .count =>
    -- `getPendingRequestCount` takes the lock and gives it back
    if c.phase = .counting ∧ s.holder = none then
      some (s.setCall i { c with phase := afterAsync c.kind })
    else none
  | .wake =>
    match c.phase, c.completed with
    | .waiting, some ok => some (s.setCall i { c with phase := .returned ok })
    | _, _ => none
  | .expire =>
    if c.phase = .waiting ∧ c.completed = none ∧ c.kind = .query true then
      some (s.setCall i { c with phase := .returned false })
    else none

/-- A step of the worker. -/
def workerStep (s : State) : WorkerStep → Option State
  | .check =>
    if s.worker = .top then
      some { s with worker := if s.running then .locking else .exited }
    else none
  | .lock =>
    if (s.worker = .locking ∨ s.worker = .woken) ∧ s.holder = none then
      some { s with worker := .testing, holder := some .worker }
    else none
  | .test =>
    if s.worker = .testing then
      some { s with worker := if s.queue ≠ [] ∨ s.running = false then .ready else .blocking }
    else none
  | .block =>
    if s.worker = .blocking then some { s with worker := .blocked, holder := none } else none
  | .wakeup => if s.worker = .blocked then some { s with worker := .woken } else none
  | .take =>
    if s.worker = .ready then
      match s.queue with
      | i :: queue => some { s with queue, worker := .processing i, holder := none }
      -- without a request the worker leaves, or goes round once more
      | [] => some { s with worker := if s.running then .top else .exited, holder := none }
    else none
  | .process ok =>
    match s.worker with
    | .processing i => some { s with worker := .invoking i ok }
    | _ => none
  | .invoke =>
    match s.worker with
    | .invoking i ok =>
      s.calls[i]?.map fun c =>
        { s.setCall i { c with completed := some ok } with
          worker := .top, invoked := s.invoked ++ [(i, ok)] }
    | _ => none

/-- A step of `start` or `stop`. -/
def controlStep (s : State) : ControlStep → Option State
  | .start =>
    if s.running then some s
    else if s.worker = .absent ∧ s.stopping = .no then
      some { s with running := true, worker := .top }
    else none
  | .stopBegin =>
    if s.stopping = .no then
      if s.running then some { s with stopping := .clearing } else some s
    else none
  | .clear =>
    if s.stopping = .clearing then some { s with running := false, stopping := .notifying }
    else none
  | .notify =>
    if s.stopping = .notifying then
      some { s with worker := s.worker.notified, stopping := .clearingAgain }
    else none
  | .clearAgain =>
    if s.stopping = .clearingAgain then
      some { s with running := false, stopping := .notifyingAgain }
    else none
  | .notifyAgain =>
    if s.stopping = .notifyingAgain then
      some { s with worker := s.worker.notified, stopping := .joining }
    else none
  | .join =>
    if s.stopping = .joining ∧ s.worker = .exited then
      some { s with worker := .absent, stopping := .locking }
    else none
  | .lock =>
    if s.stopping = .locking ∧ s.holder = none then
      some { s with stopping := .draining, holder := some .control }
    else none
  | .drain =>
    if s.stopping = .draining then some { s with queue := [], stopping := .unlocking } else none
  | .unlock =>
    if s.stopping = .unlocking then some { s with stopping := .no, holder := none } else none

/-- One step of the client and its callers. -/
def step (s : State) : Label → Option State
  | .enter kind =>
    some { s with calls := s.calls ++ [{ kind, phase := firstPhase kind, completed := none }] }
  | .caller i a => s.calls[i]?.bind fun c => callerStep s i c a
  | .worker a => workerStep s a
  | .control a => controlStep s a

/-! ## What a step can do -/

/-- The steps of a call that do not touch the lock, the queue or the worker. -/
inductive CallMove (s : State) (i : Nat) (c : Call) : CallerStep → State → Prop where
  | check (hphase : c.phase = .entered) :
      CallMove s i c .check
        (s.setCall i { c with phase := if s.running then .checked else .returned false })
  | accept (hphase : c.phase = .checked) (hrunning : s.running = true) :
      CallMove s i c .asyncCheck (s.setCall i { c with phase := .enqueuing })
  | refuse (hphase : c.phase = .checked) (hrunning : s.running = false) :
      CallMove s i c .asyncCheck
        { s.setCall i { c with completed := some false, phase := afterAsync c.kind } with
          invoked := s.invoked ++ [(i, false)] }
  | count (hphase : c.phase = .counting) (hfree : s.holder = none) :
      CallMove s i c .count (s.setCall i { c with phase := afterAsync c.kind })
  | wake {ok : Bool} (hphase : c.phase = .waiting) (hcompleted : c.completed = some ok) :
      CallMove s i c .wake (s.setCall i { c with phase := .returned ok })
  | expire (hphase : c.phase = .waiting) (hcompleted : c.completed = none)
      (hkind : c.kind = .query true) :
      CallMove s i c .expire (s.setCall i { c with phase := .returned false })
  | lock (hphase : c.phase = .enqueuing) (hfree : s.holder = none) :
      CallMove s i c .lock
        { s.setCall i { c with phase := .pushing } with holder := some (.caller i) }
  | push (hphase : c.phase = .pushing) :
      CallMove s i c .push
        { s.setCall i { c with phase := .unlocking } with queue := s.queue ++ [i] }
  | unlock (hphase : c.phase = .unlocking) :
      CallMove s i c .unlock { s.setCall i { c with phase := .notifying } with holder := none }
  | notify (hphase : c.phase = .notifying) :
      CallMove s i c .notify
        { s.setCall i { c with phase := .counting } with worker := s.worker.notified }

inductive WorkerMove (s : State) : WorkerStep → State → Prop where
  | check (hworker : s.worker = .top) :
      WorkerMove s .check { s with worker := if s.running then .locking else .exited }
  | lock (hworker : s.worker = .locking ∨ s.worker = .woken) (hfree : s.holder = none) :
      WorkerMove s .lock { s with worker := .testing, holder := some .worker }
  | pass (hworker : s.worker = .testing) (hwait : s.queue ≠ [] ∨ s.running = false) :
      WorkerMove s .test { s with worker := .ready }
  | fail (hworker : s.worker = .testing) (hqueue : s.queue = []) (hrunning : s.running = true) :
      WorkerMove s .test { s with worker := .blocking }
  | block (hworker : s.worker = .blocking) :
      WorkerMove s .block { s with worker := .blocked, holder := none }
  | wakeup (hworker : s.worker = .blocked) : WorkerMove s .wakeup { s with worker := .woken }
  | take {i : Nat} {queue : List Nat} (hworker : s.worker = .ready)
      (hqueue : s.queue = i :: queue) :
      WorkerMove s .take { s with queue, worker := .processing i, holder := none }
  | leave (hworker : s.worker = .ready) (hqueue : s.queue = []) :
      WorkerMove s .take
        { s with worker := if s.running then .top else .exited, holder := none }
  | process {i : Nat} {ok : Bool} (hworker : s.worker = .processing i) :
      WorkerMove s (.process ok) { s with worker := .invoking i ok }
  | invoke {i : Nat} {ok : Bool} {c : Call} (hworker : s.worker = .invoking i ok)
      (hc : s.calls[i]? = some c) :
      WorkerMove s .invoke
        { s.setCall i { c with completed := some ok } with
          worker := .top, invoked := s.invoked ++ [(i, ok)] }

inductive ControlMove (s : State) : ControlStep → State → Prop where
  | startAgain (hrunning : s.running = true) : ControlMove s .start s
  | start (hrunning : s.running = false) (hworker : s.worker = .absent)
      (hstopping : s.stopping = .no) :
      ControlMove s .start { s with running := true, worker := .top }
  | stopBegin (hstopping : s.stopping = .no) (hrunning : s.running = true) :
      ControlMove s .stopBegin { s with stopping := .clearing }
  | stopAgain (hstopping : s.stopping = .no) (hrunning : s.running = false) :
      ControlMove s .stopBegin s
  | clear (hstopping : s.stopping = .clearing) :
      ControlMove s .clear { s with running := false, stopping := .notifying }
  | notify (hstopping : s.stopping = .notifying) :
      ControlMove s .notify { s with worker := s.worker.notified, stopping := .clearingAgain }
  | clearAgain (hstopping : s.stopping = .clearingAgain) :
      ControlMove s .clearAgain { s with running := false, stopping := .notifyingAgain }
  | notifyAgain (hstopping : s.stopping = .notifyingAgain) :
      ControlMove s .notifyAgain { s with worker := s.worker.notified, stopping := .joining }
  | join (hstopping : s.stopping = .joining) (hworker : s.worker = .exited) :
      ControlMove s .join { s with worker := .absent, stopping := .locking }
  | lock (hstopping : s.stopping = .locking) (hfree : s.holder = none) :
      ControlMove s .lock { s with stopping := .draining, holder := some .control }
  | drain (hstopping : s.stopping = .draining) :
      ControlMove s .drain { s with queue := [], stopping := .unlocking }
  | unlock (hstopping : s.stopping = .unlocking) :
      ControlMove s .unlock { s with stopping := .no, holder := none }

/-- What a step can do. -/
inductive Move (s : State) : Label → State → Prop where
  | enter (kind : Kind) :
      Move s (.enter kind)
        { s with calls := s.calls ++ [{ kind, phase := firstPhase kind, completed := none }] }
  | caller {i : Nat} {c : Call} {a : CallerStep} {s' : State} (hc : s.calls[i]? = some c)
      (hmove : CallMove s i c a s') : Move s (.caller i a) s'
  | worker {a : WorkerStep} {s' : State} (hmove : WorkerMove s a s') : Move s (.worker a) s'
  | control {a : ControlStep} {s' : State} (hmove : ControlMove s a s') : Move s (.control a) s'

theorem callMove_of_callerStep {s s' : State} {i : Nat} {c : Call} {a : CallerStep}
    (h : callerStep s i c a = some s') : CallMove s i c a s' := by
  cases a with
  | check =>
    rw [callerStep, Option.ite_none_right_eq_some] at h
    exact Option.some.inj h.2 ▸ .check h.1
  | asyncCheck =>
    rw [callerStep, Option.ite_none_right_eq_some] at h
    obtain ⟨hphase, h⟩ := h
    cases hrunning : s.running with
    | true =>
      rw [hrunning, if_pos rfl] at h
      exact Option.some.inj h ▸ .accept hphase hrunning
    | false =>
      rw [hrunning, if_neg (by decide)] at h
      exact Option.some.inj h ▸ .refuse hphase hrunning
  | lock =>
    rw [callerStep, Option.ite_none_right_eq_some] at h
    exact Option.some.inj h.2 ▸ .lock h.1.1 h.1.2
  | push =>
    rw [callerStep, Option.ite_none_right_eq_some] at h
    exact Option.some.inj h.2 ▸ .push h.1
  | unlock =>
    rw [callerStep, Option.ite_none_right_eq_some] at h
    exact Option.some.inj h.2 ▸ .unlock h.1
  | notify =>
    rw [callerStep, Option.ite_none_right_eq_some] at h
    exact Option.some.inj h.2 ▸ .notify h.1
  | count =>
    rw [callerStep, Option.ite_none_right_eq_some] at h
    exact Option.some.inj h.2 ▸ .count h.1.1 h.1.2
  | wake =>
    rw [callerStep] at h
    split at h
    · rename_i ok hphase hcompleted
      exact Option.some.inj h ▸ .wake hphase hcompleted
    · simp at h
  | expire =>
    rw [callerStep, Option.ite_none_right_eq_some] at h
    obtain ⟨⟨hphase, hcompleted, hkind⟩, h⟩ := h
    exact Option.some.inj h ▸ .expire hphase hcompleted hkind

theorem workerMove_of_workerStep {s s' : State} {a : WorkerStep} (h : workerStep s a = some s') :
    WorkerMove s a s' := by
  cases a with
  | check =>
    rw [workerStep, Option.ite_none_right_eq_some] at h
    exact Option.some.inj h.2 ▸ .check h.1
  | lock =>
    rw [workerStep, Option.ite_none_right_eq_some] at h
    exact Option.some.inj h.2 ▸ .lock h.1.1 h.1.2
  | test =>
    rw [workerStep, Option.ite_none_right_eq_some] at h
    obtain ⟨hworker, h⟩ := h
    by_cases hwait : s.queue ≠ [] ∨ s.running = false
    · rw [if_pos hwait] at h
      exact Option.some.inj h ▸ .pass hworker hwait
    · rw [if_neg hwait] at h
      rw [not_or, Decidable.not_not, Bool.not_eq_false] at hwait
      exact Option.some.inj h ▸ .fail hworker hwait.1 hwait.2
  | block =>
    rw [workerStep, Option.ite_none_right_eq_some] at h
    exact Option.some.inj h.2 ▸ .block h.1
  | wakeup =>
    rw [workerStep, Option.ite_none_right_eq_some] at h
    exact Option.some.inj h.2 ▸ .wakeup h.1
  | take =>
    rw [workerStep, Option.ite_none_right_eq_some] at h
    obtain ⟨hworker, h⟩ := h
    split at h
    · rename_i i queue hqueue
      exact Option.some.inj h ▸ .take hworker hqueue
    · rename_i hqueue
      exact Option.some.inj h ▸ .leave hworker hqueue
  | process ok =>
    rw [workerStep] at h
    split at h
    · rename_i i hworker
      exact Option.some.inj h ▸ .process hworker
    · simp at h
  | invoke =>
    rw [workerStep] at h
    split at h
    · rename_i i ok hworker
      obtain ⟨c, hc, rfl⟩ := Option.map_eq_some_iff.mp h
      exact .invoke hworker hc
    · simp at h

theorem controlMove_of_controlStep {s s' : State} {a : ControlStep}
    (h : controlStep s a = some s') : ControlMove s a s' := by
  cases a with
  | start =>
    rw [controlStep] at h
    split at h
    · rename_i hrunning
      exact Option.some.inj h ▸ .startAgain hrunning
    · rename_i hrunning
      rw [Option.ite_none_right_eq_some] at h
      exact Option.some.inj h.2 ▸ .start (by simpa using hrunning) h.1.1 h.1.2
  | stopBegin =>
    rw [controlStep, Option.ite_none_right_eq_some] at h
    obtain ⟨hstopping, h⟩ := h
    split at h
    · rename_i hrunning
      exact Option.some.inj h ▸ .stopBegin hstopping hrunning
    · rename_i hrunning
      exact Option.some.inj h ▸ .stopAgain hstopping (by simpa using hrunning)
  | clear =>
    rw [controlStep, Option.ite_none_right_eq_some] at h
    exact Option.some.inj h.2 ▸ .clear h.1
  | notify =>
    rw [controlStep, Option.ite_none_right_eq_some] at h
    exact Option.some.inj h.2 ▸ .notify h.1
  | clearAgain =>
    rw [controlStep, Option.ite_none_right_eq_some] at h
    exact Option.some.inj h.2 ▸ .clearAgain h.1
  | notifyAgain =>
    rw [controlStep, Option.ite_none_right_eq_some] at h
    exact Option.some.inj h.2 ▸ .notifyAgain h.1
  | join =>
    rw [controlStep, Option.ite_none_right_eq_some] at h
    exact Option.some.inj h.2 ▸ .join h.1.1 h.1.2
  | lock =>
    rw [controlStep, Option.ite_none_right_eq_some] at h
    exact Option.some.inj h.2 ▸ .lock h.1.1 h.1.2
  | drain =>
    rw [controlStep, Option.ite_none_right_eq_some] at h
    exact Option.some.inj h.2 ▸ .drain h.1
  | unlock =>
    rw [controlStep, Option.ite_none_right_eq_some] at h
    exact Option.some.inj h.2 ▸ .unlock h.1

/-- A step that fires is one of the cases of `Move`. -/
theorem move_of_step {s s' : State} {l : Label} (h : step s l = some s') : Move s l s' := by
  cases l with
  | enter kind => exact Option.some.inj h ▸ .enter kind
  | caller i a =>
    obtain ⟨c, hc, h⟩ := Option.bind_eq_some_iff.mp h
    exact .caller hc (callMove_of_callerStep h)
  | worker a => exact .worker (workerMove_of_workerStep h)
  | control a => exact .control (controlMove_of_controlStep h)

/-! ## The lock -/

/-- The call is between the lock and the unlock of `queryAsync`. -/
def Phase.inside : Phase → Bool
  | .pushing | .unlocking => true
  | _ => false

/-- The worker is between the lock and the unlock of its wait, and awake. -/
def Worker.inside : Worker → Bool
  | .testing | .blocking | .ready => true
  | _ => false

/-- `stop` empties the queue. -/
def Stopping.inside : Stopping → Bool
  | .draining | .unlocking => true
  | _ => false

/-- The threads that are between a lock and its unlock. -/
def inside (worker : Worker) (stopping : Stopping) (calls : List Call) : Thread → Bool
  | .worker => worker.inside
  | .caller i => calls[i]?.any fun c => c.phase.inside
  | .control => stopping.inside

@[simp] theorem Worker.inside_notified (w : Worker) : w.notified.inside = w.inside := by
  cases w <;> rfl

theorem not_inside_afterAsync (kind : Kind) : (afterAsync kind).inside = false := by
  cases kind <;> rfl

theorem not_inside_firstPhase (kind : Kind) : (firstPhase kind).inside = false := by
  cases kind <;> rfl

section

variable {w : Worker} {p : Stopping} {calls : List Call}

theorem inside_caller {i : Nat} {c : Call} (hc : calls[i]? = some c) :
    inside w p calls (.caller i) = c.phase.inside := by
  rw [inside, hc, Option.any_some]

theorem inside_set {i : Nat} {c c' : Call} (hc : calls[i]? = some c) :
    inside w p (calls.set i c') =
      Function.update (inside w p calls) (.caller i) c'.phase.inside := by
  funext t
  by_cases ht : t = .caller i
  · rw [ht, Function.update_self]
    exact inside_caller (List.getElem?_set_self (List.getElem?_eq_some_iff.mp hc).1)
  · rw [Function.update_of_ne ht]
    cases t with
    | worker | control => rfl
    | caller j =>
      have hne : i ≠ j := fun heq => ht (by rw [heq])
      rw [inside, inside, List.getElem?_set_ne hne]

theorem inside_concat {c : Call} (hc : c.phase.inside = false) :
    inside w p (calls ++ [c]) = inside w p calls := by
  funext t
  cases t with
  | worker | control => rfl
  | caller j =>
    rw [inside, inside]
    rcases Nat.lt_trichotomy j calls.length with hj | rfl | hj
    · rw [List.getElem?_append_left hj]
    · simp [hc]
    · rw [List.getElem?_eq_none (by simp; omega), List.getElem?_eq_none (by omega)]

theorem inside_worker (w' : Worker) :
    inside w' p calls = Function.update (inside w p calls) .worker w'.inside := by
  funext t
  cases t with
  | worker => rw [Function.update_self, inside]
  | caller j => rw [Function.update_of_ne (by simp), inside, inside]
  | control => rw [Function.update_of_ne (by simp), inside, inside]

theorem inside_stopping (p' : Stopping) :
    inside w p' calls = Function.update (inside w p calls) .control p'.inside := by
  funext t
  cases t with
  | control => rw [Function.update_self, inside]
  | caller j => rw [Function.update_of_ne (by simp), inside, inside]
  | worker => rw [Function.update_of_ne (by simp), inside, inside]

end

/-- The holder of the lock is the thread that is inside. -/
def LockHeld (s : State) : Prop := Owned s.holder (inside s.worker s.stopping s.calls)

theorem lockHeld_callMove {s s' : State} {i : Nat} {c : Call} {a : CallerStep}
    (h : LockHeld s) (hc : s.calls[i]? = some c) (hmove : CallMove s i c a s') : LockHeld s' := by
  have hinside := inside_caller (w := s.worker) (p := s.stopping) hc
  have hset : ∀ c' : Call, inside s.worker s.stopping (s.calls.set i c') = _ :=
    fun _ => inside_set hc
  cases hmove with
  | check hphase =>
    rw [LockHeld, State.setCall, hset]
    refine h.keep ?_
    rw [hinside, hphase]
    cases s.running <;> rfl
  | accept hphase =>
    rw [LockHeld, State.setCall, hset]
    exact h.keep (by rw [hinside, hphase]; rfl)
  | refuse hphase =>
    rw [LockHeld, State.setCall, hset, not_inside_afterAsync]
    exact h.keep (by rw [hinside, hphase]; rfl)
  | count hphase =>
    rw [LockHeld, State.setCall, hset, not_inside_afterAsync]
    exact h.keep (by rw [hinside, hphase]; rfl)
  | wake hphase | expire hphase =>
    rw [LockHeld, State.setCall, hset]
    exact h.keep (by rw [hinside, hphase]; rfl)
  | lock hphase hfree =>
    rw [LockHeld, State.setCall, hset]
    exact h.acquire hfree (.caller i)
  | push hphase =>
    rw [LockHeld, State.setCall, hset]
    exact h.keep (by rw [hinside, hphase]; rfl)
  | unlock hphase =>
    rw [LockHeld, State.setCall, hset]
    exact h.release (by rw [hinside, hphase]; rfl)
  | notify hphase =>
    rw [LockHeld, State.setCall, inside_set hc]
    have hworker : inside s.worker.notified s.stopping s.calls =
        inside s.worker s.stopping s.calls := by
      rw [inside_worker (w := s.worker) s.worker.notified, Worker.inside_notified]
      exact Function.update_eq_self _ _
    rw [hworker]
    exact h.keep (by rw [hinside, hphase]; rfl)

theorem lockHeld_workerMove {s s' : State} {a : WorkerStep} (h : LockHeld s)
    (hmove : WorkerMove s a s') : LockHeld s' := by
  have hinside : inside s.worker s.stopping s.calls .worker = s.worker.inside := rfl
  have hset : ∀ w : Worker, inside w s.stopping s.calls = _ :=
    fun w => inside_worker (w := s.worker) w
  cases hmove with
  | check hworker =>
    rw [LockHeld, hset]
    refine h.keep ?_
    rw [hinside, hworker]
    cases s.running <;> rfl
  | lock hworker hfree =>
    rw [LockHeld, hset]
    exact h.acquire hfree .worker
  | pass hworker | fail hworker =>
    rw [LockHeld, hset]
    exact h.keep (by rw [hinside, hworker]; rfl)
  | block hworker =>
    rw [LockHeld, hset]
    exact h.release (by rw [hinside, hworker]; rfl)
  | wakeup hworker =>
    rw [LockHeld, hset]
    exact h.keep (by rw [hinside, hworker]; rfl)
  | take hworker =>
    rw [LockHeld, hset]
    exact h.release (by rw [hinside, hworker]; rfl)
  | leave hworker =>
    have hout : (if s.running then Worker.top else Worker.exited).inside = false := by
      cases s.running <;> rfl
    rw [LockHeld, hset, hout]
    exact h.release (by rw [hinside, hworker]; rfl)
  | process hworker =>
    rw [LockHeld, hset]
    exact h.keep (by rw [hinside, hworker]; rfl)
  | @invoke i ok c hworker hc =>
    rw [LockHeld, State.setCall, inside_set hc, hset]
    have htop : Owned s.holder
        (Function.update (inside s.worker s.stopping s.calls) .worker false) :=
      h.keep (by rw [hinside, hworker]; rfl)
    exact htop.keep (by rw [Function.update_of_ne (by simp), inside_caller hc])

theorem lockHeld_controlMove {s s' : State} {a : ControlStep} (h : LockHeld s)
    (hmove : ControlMove s a s') : LockHeld s' := by
  have hinside : inside s.worker s.stopping s.calls .control = s.stopping.inside := rfl
  have hset : ∀ p : Stopping, inside s.worker p s.calls = _ :=
    fun p => inside_stopping (p := s.stopping) p
  have hworker : ∀ w : Worker, w.inside = s.worker.inside →
      inside w s.stopping s.calls = inside s.worker s.stopping s.calls := by
    intro w hw
    rw [inside_worker (w := s.worker) w, hw]
    exact Function.update_eq_self _ _
  cases hmove with
  | startAgain | stopAgain => exact h
  | start _ hw =>
    rw [LockHeld, hworker .top (by rw [hw]; rfl)]
    exact h
  | stopBegin hstopping | clear hstopping | clearAgain hstopping | drain hstopping =>
    rw [LockHeld, hset]
    exact h.keep (by rw [hinside, hstopping]; rfl)
  | notify hstopping | notifyAgain hstopping =>
    rw [LockHeld, inside_stopping (p := s.stopping), hworker _ (Worker.inside_notified _)]
    exact h.keep (by rw [hinside, hstopping]; rfl)
  | join hstopping hw =>
    rw [LockHeld, inside_stopping (p := s.stopping), hworker .absent (by rw [hw]; rfl)]
    exact h.keep (by rw [hinside, hstopping]; rfl)
  | lock hstopping hfree =>
    rw [LockHeld, hset]
    exact h.acquire hfree .control
  | unlock hstopping =>
    rw [LockHeld, hset]
    exact h.release (by rw [hinside, hstopping]; rfl)

theorem lockHeld_init : LockHeld init := by
  intro t
  cases t <;> simp [init, inside, Worker.inside, Stopping.inside]

theorem lockHeld_step {s s' : State} {l : Label} (h : LockHeld s) (hstep : step s l = some s') :
    LockHeld s' := by
  cases move_of_step hstep with
  | enter kind =>
    rw [LockHeld, inside_concat (not_inside_firstPhase kind)]
    exact h
  | caller hc hmove => exact lockHeld_callMove h hc hmove
  | worker hmove => exact lockHeld_workerMove h hmove
  | control hmove => exact lockHeld_controlMove h hmove

/-- While the worker is inside, nobody else is. -/
theorem LockHeld.not_inside {s : State} (h : LockHeld s) (hworker : s.worker.inside = true)
    {i : Nat} {c : Call} (hc : s.calls[i]? = some c) : c.phase.inside = false := by
  cases hphase : c.phase.inside with
  | false => rfl
  | true =>
    have heq := Owned.unique h (t := .worker) (u := .caller i) hworker
      ((inside_caller hc).trans hphase)
    exact absurd heq (by simp)

/-! ## `start` and `stop` -/

/-- `stop` has cleared `_running`. -/
def Stopping.cleared : Stopping → Bool
  | .no | .clearing => false
  | _ => true

/-- `stop` has joined the worker. -/
def Stopping.joined : Stopping → Bool
  | .locking | .draining | .unlocking => true
  | _ => false

/-- There is a worker as long as the client runs and until `stop` has joined it, and
it does not exit while the client runs. -/
structure Controlled (s : State) : Prop where
  cleared : s.stopping.cleared = true → s.running = false
  running : s.running = true → s.worker ≠ .absent ∧ s.worker ≠ .exited
  joined : s.stopping.joined = true → s.worker = .absent
  present : s.stopping ≠ .no → s.stopping.joined = false → s.worker ≠ .absent

theorem controlled_init : Controlled init where
  cleared := by simp [init]
  running := by simp [init]
  joined := by simp [init]
  present := by simp [init]

theorem Worker.notified_eq_absent {w : Worker} : w.notified = .absent ↔ w = .absent := by
  cases w <;> simp [Worker.notified]

theorem Worker.notified_eq_exited {w : Worker} : w.notified = .exited ↔ w = .exited := by
  cases w <;> simp [Worker.notified]

theorem Worker.notified_eq_ready {w : Worker} : w.notified = .ready ↔ w = .ready := by
  cases w <;> simp [Worker.notified]

theorem Worker.notified_eq_blocking {w : Worker} : w.notified = .blocking ↔ w = .blocking := by
  cases w <;> simp [Worker.notified]

theorem Worker.notified_ne_blocked (w : Worker) : w.notified ≠ .blocked := by
  cases w <;> simp [Worker.notified]

/-- What a caller leaves alone. -/
theorem callMove_frame {s s' : State} {i : Nat} {c : Call} {a : CallerStep}
    (hmove : CallMove s i c a s') :
    s'.running = s.running ∧ s'.stopping = s.stopping ∧
      (s'.worker = s.worker ∨ s'.worker = s.worker.notified) := by
  cases hmove with
  | notify => exact ⟨rfl, rfl, .inr rfl⟩
  | _ => exact ⟨rfl, rfl, .inl rfl⟩

/-- The worker keeps `start` and `stop` where they are, and it exits only when the
client does not run. -/
theorem workerMove_frame {s s' : State} {a : WorkerStep} (hmove : WorkerMove s a s') :
    s'.running = s.running ∧ s'.stopping = s.stopping ∧ s.worker ≠ .absent ∧
      s'.worker ≠ .absent ∧ (s'.worker = .exited → s.running = false) := by
  cases hmove with
  | check hworker | leave hworker =>
    cases hrunning : s.running <;> simp [hworker]
  | lock hworker =>
    rcases hworker with hworker | hworker <;> simp [hworker]
  | pass hworker | fail hworker | block hworker | wakeup hworker | take hworker
    | process hworker | invoke hworker => simp [hworker, State.setCall]

theorem controlled_step {s s' : State} {l : Label} (h : Controlled s)
    (hstep : step s l = some s') : Controlled s' := by
  cases move_of_step hstep with
  | enter kind => exact ⟨h.cleared, h.running, h.joined, h.present⟩
  | caller hc hmove =>
    obtain ⟨hrunning, hstopping, hworker | hworker⟩ := callMove_frame hmove
    · constructor
      · rw [hrunning, hstopping]; exact h.cleared
      · rw [hrunning, hworker]; exact h.running
      · rw [hstopping, hworker]; exact h.joined
      · rw [hstopping, hworker]; exact h.present
    · constructor
      · rw [hrunning, hstopping]; exact h.cleared
      · rw [hrunning, hworker, ne_eq, ne_eq, Worker.notified_eq_absent,
          Worker.notified_eq_exited]
        exact h.running
      · rw [hstopping, hworker, Worker.notified_eq_absent]; exact h.joined
      · rw [hstopping, hworker, ne_eq, ne_eq, Worker.notified_eq_absent]; exact h.present
  | worker hmove =>
    obtain ⟨hrunning, hstopping, hbefore, hafter, hexited⟩ := workerMove_frame hmove
    constructor
    · rw [hrunning, hstopping]; exact h.cleared
    · rw [hrunning]
      intro hrun
      exact ⟨hafter, fun hex => by rw [hexited hex] at hrun; simp at hrun⟩
    · rw [hstopping]
      exact fun hjoined => absurd (h.joined hjoined) hbefore
    · exact fun _ _ => hafter
  | control hmove =>
    cases hmove with
    | startAgain | stopAgain => exact h
    | start _ _ hstopping => constructor <;> simp [hstopping, Stopping.cleared, Stopping.joined]
    | stopBegin hstopping hrunning =>
      constructor <;> simp [hrunning, Stopping.cleared, Stopping.joined, h.running]
    | clear hstopping =>
      have hworker := h.present (by simp [hstopping]) (by simp [hstopping, Stopping.joined])
      constructor <;> simp [Stopping.joined, hworker]
    | notify hstopping | notifyAgain hstopping =>
      have hworker := h.present (by simp [hstopping]) (by simp [hstopping, Stopping.joined])
      have hrunning := h.cleared (by rw [hstopping]; rfl)
      constructor <;> simp [Stopping.joined, hrunning, Worker.notified_eq_absent, hworker]
    | clearAgain hstopping =>
      have hworker := h.present (by simp [hstopping]) (by simp [hstopping, Stopping.joined])
      constructor <;> simp [Stopping.joined, hworker]
    | join hstopping =>
      have hrunning := h.cleared (by rw [hstopping]; rfl)
      constructor <;> simp [Stopping.joined, hrunning]
    | lock hstopping | drain hstopping =>
      have hworker := h.joined (by rw [hstopping]; rfl)
      have hrunning := h.cleared (by rw [hstopping]; rfl)
      constructor <;> simp [Stopping.joined, hrunning, hworker]
    | unlock hstopping =>
      have hrunning := h.cleared (by rw [hstopping]; rfl)
      constructor <;> simp [Stopping.joined, Stopping.cleared, hrunning]

/-! ## What the lock gives to the wait -/

/-- The call has pushed its request and not yet notified the worker. -/
def Phase.signals : Phase → Bool
  | .unlocking | .notifying => true
  | _ => false

/-- The worker finds the queue as it tested it.  While it sleeps over a request, some
caller has still to notify it. -/
structure Signals (s : State) : Prop where
  ready : s.worker = .ready → s.queue ≠ [] ∨ s.running = false
  blocking : s.worker = .blocking → s.queue = []
  blocked : s.worker = .blocked → s.queue ≠ [] →
    ∃ (i : Nat) (c : Call), s.calls[i]? = some c ∧ c.phase.signals = true

theorem signals_init : Signals init where
  ready := by simp [init]
  blocking := by simp [init]
  blocked := by simp [init]

/-- A worker that is not in its wait needs nothing. -/
theorem Signals.of_worker {s : State} (hready : s.worker ≠ .ready)
    (hblocking : s.worker ≠ .blocking) (hblocked : s.worker ≠ .blocked) : Signals s :=
  ⟨fun h => absurd h hready, fun h => absurd h hblocking, fun h => absurd h hblocked⟩

/-- A step of a call that does not push and leaves those that still notify as they
are. -/
theorem Signals.set {s s' : State} (h : Signals s) {i : Nat} {c c' : Call}
    (hc : s.calls[i]? = some c) (hrunning : s'.running = s.running)
    (hqueue : s'.queue = s.queue) (hworker : s'.worker = s.worker)
    (hcalls : s'.calls = s.calls.set i c')
    (hsignals : c.phase.signals = true → c'.phase.signals = true) : Signals s' where
  ready := by rw [hrunning, hqueue, hworker]; exact h.ready
  blocking := by rw [hqueue, hworker]; exact h.blocking
  blocked := by
    rw [hqueue, hworker, hcalls]
    intro hblocked hne
    obtain ⟨j, d, hd, hphase⟩ := h.blocked hblocked hne
    obtain ⟨d', hd', hphase'⟩ := exists_getElem?_set hd (p := fun d => d.phase.signals = true)
      hphase (i := i) (a := c') fun hi => by
        obtain rfl := Option.some.inj (hc.symm.trans hi)
        exact hsignals hphase
    exact ⟨j, d', hd', hphase'⟩

theorem signals_callMove {s s' : State} {i : Nat} {c : Call} {a : CallerStep}
    (h : Signals s) (hlock : LockHeld s) (hc : s.calls[i]? = some c)
    (hmove : CallMove s i c a s') : Signals s' := by
  cases hmove with
  | check hphase | accept hphase | refuse hphase | count hphase | wake hphase | expire hphase
    | lock hphase => exact h.set hc rfl rfl rfl rfl (by simp [hphase, Phase.signals])
  | unlock => exact h.set hc rfl rfl rfl rfl fun _ => rfl
  | push hphase =>
    refine ⟨fun _ => .inl (by simp), ?_, ?_⟩
    · intro hblocking
      have hout := hlock.not_inside (by rw [show s.worker = .blocking from hblocking]; rfl) hc
      rw [hphase] at hout
      exact absurd hout (by decide)
    · intro _ _
      exact ⟨i, _, List.getElem?_set_self (List.getElem?_eq_some_iff.mp hc).1, rfl⟩
  | notify =>
    refine ⟨?_, ?_, ?_⟩
    · rw [Worker.notified_eq_ready]
      exact h.ready
    · rw [Worker.notified_eq_blocking]
      exact h.blocking
    · exact fun hblocked => absurd hblocked (Worker.notified_ne_blocked _)

theorem signals_workerMove {s s' : State} {a : WorkerStep} (h : Signals s)
    (hmove : WorkerMove s a s') : Signals s' := by
  cases hmove with
  | pass hworker hwait => exact ⟨fun _ => hwait, by simp, by simp⟩
  | fail hworker hqueue => exact ⟨by simp, fun _ => hqueue, by simp⟩
  | block hworker => exact ⟨by simp, by simp, fun _ hne => absurd (h.blocking hworker) hne⟩
  | check | leave =>
    cases hrunning : s.running <;> exact .of_worker (by simp) (by simp) (by simp)
  | lock | wakeup | take | process | invoke => exact .of_worker (by simp) (by simp) (by simp)

theorem signals_controlMove {s s' : State} {a : ControlStep} (h : Signals s)
    (hcontrol : Controlled s) (hmove : ControlMove s a s') : Signals s' := by
  cases hmove with
  | startAgain | stopAgain => exact h
  | start | join => exact .of_worker (by simp) (by simp) (by simp)
  | stopBegin | lock | unlock => exact ⟨h.ready, h.blocking, h.blocked⟩
  | clear | clearAgain => exact ⟨fun _ => .inr rfl, h.blocking, h.blocked⟩
  | notify | notifyAgain =>
    refine ⟨?_, ?_, ?_⟩
    · rw [Worker.notified_eq_ready]
      exact h.ready
    · rw [Worker.notified_eq_blocking]
      exact h.blocking
    · exact fun hblocked => absurd hblocked (Worker.notified_ne_blocked _)
  | drain hstopping =>
    have hworker := hcontrol.joined (by rw [hstopping]; rfl)
    exact .of_worker (by simp [hworker]) (by simp [hworker]) (by simp [hworker])

/-! ## The requests -/

/-- The request that the worker has taken and not yet answered. -/
def Worker.held : Worker → List Nat
  | .processing i => [i]
  | .invoking i _ => [i]
  | _ => []

/-- The requests in the queue and with the worker belong to calls. -/
def Known (s : State) : Prop := ∀ i ∈ s.queue ++ s.worker.held, i < s.calls.length

theorem Worker.held_notified (w : Worker) : w.notified.held = w.held := by
  cases w <;> rfl

theorem Known.of_subset {s s' : State} (h : Known s) (hcalls : s.calls.length ≤ s'.calls.length)
    (hsub : s'.queue ++ s'.worker.held ⊆ s.queue ++ s.worker.held) : Known s' :=
  fun i hi => Nat.lt_of_lt_of_le (h i (hsub hi)) hcalls

theorem known_callMove {s s' : State} {i : Nat} {c : Call} {a : CallerStep} (h : Known s)
    (hc : s.calls[i]? = some c) (hmove : CallMove s i c a s') : Known s' := by
  have hlength : ∀ c' : Call, s.calls.length ≤ (s.calls.set i c').length := by simp
  cases hmove with
  | push =>
    intro j hj
    simp only [State.setCall, List.append_assoc, List.mem_append, List.mem_singleton,
      List.length_set] at hj ⊢
    rcases hj with hj | rfl | hj
    · exact h j (List.mem_append_left _ hj)
    · exact (List.getElem?_eq_some_iff.mp hc).1
    · exact h j (List.mem_append_right _ hj)
  | notify =>
    refine h.of_subset (hlength _) ?_
    rw [Worker.held_notified]
    exact List.Subset.refl _
  | check | accept | refuse | count | wake | expire | lock | unlock =>
    exact h.of_subset (hlength _) (List.Subset.refl _)

theorem known_workerMove {s s' : State} {a : WorkerStep} (h : Known s)
    (hmove : WorkerMove s a s') : Known s' := by
  cases hmove with
  | check | leave =>
    refine h.of_subset (Nat.le_refl _) ?_
    cases hrunning : s.running <;> simp [Worker.held]
  | lock | pass | fail | block | wakeup =>
    refine h.of_subset (Nat.le_refl _) ?_
    simp [Worker.held]
  | take _ hcons =>
    refine h.of_subset (Nat.le_refl _) ?_
    intro j hj
    rw [hcons]
    simp only [Worker.held, List.mem_append, List.mem_singleton] at hj
    rcases hj with hj | rfl
    · exact List.mem_append_left _ (List.mem_cons_of_mem _ hj)
    · exact List.mem_append_left _ List.mem_cons_self
  | process hworker =>
    refine h.of_subset (Nat.le_refl _) ?_
    rw [hworker]
    exact List.Subset.refl _
  | invoke =>
    refine h.of_subset (by simp [State.setCall]) ?_
    simp [Worker.held, State.setCall]

theorem known_controlMove {s s' : State} {a : ControlStep} (h : Known s)
    (hmove : ControlMove s a s') : Known s' := by
  cases hmove with
  | notify | notifyAgain =>
    refine h.of_subset (Nat.le_refl _) ?_
    rw [Worker.held_notified]
    exact List.Subset.refl _
  | start | join =>
    refine h.of_subset (Nat.le_refl _) ?_
    simp [Worker.held]
  | drain => exact h.of_subset (Nat.le_refl _) (List.subset_append_right _ _)
  | startAgain | stopAgain => exact h
  | stopBegin | clear | clearAgain | lock | unlock =>
    exact h.of_subset (Nat.le_refl _) (List.Subset.refl _)

/-! ## The invariant -/

/-- What every run keeps. -/
structure Inv (s : State) : Prop where
  lock : LockHeld s
  control : Controlled s
  signals : Signals s
  known : Known s

theorem inv_init : Inv init :=
  ⟨lockHeld_init, controlled_init, signals_init, by simp [Known, init, Worker.held]⟩

theorem inv_step {s s' : State} {l : Label} (h : Inv s) (hstep : step s l = some s') : Inv s' := by
  have hlock := lockHeld_step h.lock hstep
  have hcontrol := controlled_step h.control hstep
  cases move_of_step hstep with
  | enter kind =>
    refine ⟨hlock, hcontrol, ⟨h.signals.ready, h.signals.blocking, fun hblocked hne => ?_⟩,
      h.known.of_subset (by simp) (List.Subset.refl _)⟩
    obtain ⟨i, c, hc, hphase⟩ := h.signals.blocked hblocked hne
    exact ⟨i, c, getElem?_concat.mpr (.inl hc), hphase⟩
  | caller hc hmove =>
    exact ⟨hlock, hcontrol, signals_callMove h.signals h.lock hc hmove,
      known_callMove h.known hc hmove⟩
  | worker hmove =>
    exact ⟨hlock, hcontrol, signals_workerMove h.signals hmove, known_workerMove h.known hmove⟩
  | control hmove =>
    exact ⟨hlock, hcontrol, signals_controlMove h.signals h.control hmove,
      known_controlMove h.known hmove⟩

end OracleMachine.Node.QueueMonitor
