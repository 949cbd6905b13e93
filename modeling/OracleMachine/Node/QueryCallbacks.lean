import OracleMachine.Lib.Entries
import OracleMachine.Lib.Transition
import Mathlib.Data.List.Perm.Subperm

/-!
# Callers, queue and worker of an interface client

`InterfaceClient::query` puts a request into the client's queue and waits until
the worker invokes the request's callback.  The callback refers to the mutex,
the condition variable and the result variables on the stack of that `query`
call.  This module is the step machine of the threads involved, with one label
for each atomic piece of the source:

* a caller of `query` checks `_running`, calls `queryAsync`, which checks it
  again and enqueues, and then waits for its callback, with or without a
  timeout; a caller of `queryAsync` goes the same way without the first check
  and without waiting;
* the worker checks `_running`, waits for a request, takes it, processes it
  and invokes its callback;
* `stop` clears `_running`, joins the worker and drops what is left in the
  queue; `start` makes a new worker.

A wait with a timeout may expire whenever the callback has not run.  Which
request succeeds is the environment's choice.  The bytes of requests and
replies play no part here.

The state records every invocation of a callback, with whether the call it
belongs to had returned.  `Inv` is the invariant that keeps those of `query`
calls in time, `inv_step` its preservation, and `callbacks_in_time` the result
for runs in which a wait expires only when its request is gone.
`expired_callback_is_invoked` is a run with a wait that expires too early.
-/

namespace OracleMachine.Node.QueryCallbacks

open Lib.Transition Lib.Entries

/-- Who calls: `query` with a positive timeout or without, or `queryAsync`. -/
inductive Kind where
  | query (timed : Bool)
  | queryAsync
  deriving DecidableEq

/-- Where a call is: before the check of `query`, before the check of
`queryAsync`, before the push, in the wait, or done. -/
inductive Phase where
  | entered
  | checked
  | enqueuing
  | waiting
  | returned (ok : Bool)
  deriving DecidableEq

/-- A call and what its callback has stored: `completed` and `success`. -/
structure Call where
  kind : Kind
  phase : Phase
  completed : Option Bool
  deriving DecidableEq

/-- The worker thread: not started, at the loop condition, in the wait, in
`processQueryRequest`, about to invoke the callback, or at its end. -/
inductive Worker where
  | absent
  | top
  | waiting
  | processing (call : Nat)
  | invoking (call : Nat) (ok : Bool)
  | exited
  deriving DecidableEq

/-- How far `stop` is. -/
inductive Stopping where
  | no
  | shutdown
  | joining
  | draining
  deriving DecidableEq

/-- A callback that was invoked, and whether its call had returned before. -/
structure Invocation where
  call : Nat
  success : Bool
  afterReturn : Bool
  deriving DecidableEq

/-- The state of the client and its callers.  A call is known by its index in
`calls`. -/
structure State where
  running : Bool
  queue : List Nat
  worker : Worker
  stopping : Stopping
  calls : List Call
  invoked : List Invocation
  deriving DecidableEq

/-- The steps of a call. -/
inductive CallerStep where
  | check
  | asyncCheck
  | enqueue
  | wake
  | expire
  deriving DecidableEq

/-- The steps of the worker. -/
inductive WorkerStep where
  | check
  | take
  | process (ok : Bool)
  | invoke
  deriving DecidableEq

/-- The steps of `start` and `stop`. -/
inductive ControlStep where
  | start
  | stopBegin
  | stopShutdown
  | stopJoin
  | stopDrain
  deriving DecidableEq

/-- A step: a new call, a step of call `i`, of the worker, or of `start` and
`stop`. -/
inductive Label where
  | enter (kind : Kind)
  | caller (i : Nat) (a : CallerStep)
  | worker (a : WorkerStep)
  | control (a : ControlStep)
  deriving DecidableEq

/-- A client that was just constructed. -/
def init : State where
  running := false
  queue := []
  worker := .absent
  stopping := .no
  calls := []
  invoked := []

/-- `query` has returned, or `queryAsync` has. -/
def Phase.isReturned : Phase → Bool
  | .returned _ => true
  | _ => false

/-- Where a call goes on when `queryAsync` returns. -/
def afterAsync : Kind → Phase
  | .query _ => .waiting
  | .queryAsync => .returned true

namespace State

/-- Replace the call `i`. -/
def setCall (s : State) (i : Nat) (c : Call) : State := { s with calls := s.calls.set i c }

/-- Invoke the callback of the call `i`, which is at `c` and goes on at
`phase`. -/
def record (s : State) (i : Nat) (c : Call) (ok : Bool) (phase : Phase) : State :=
  { s with
    calls := s.calls.set i { c with completed := some ok, phase }
    invoked := s.invoked ++ [{ call := i, success := ok, afterReturn := c.phase.isReturned }] }

end State

/-- A step of the call `i`, which is at `c`. -/
def callerStep (s : State) (i : Nat) (c : Call) : CallerStep → Option State
  | .check =>
    if c.phase = .entered then
      some (s.setCall i { c with phase := if s.running then .checked else .returned false })
    else none
  | .asyncCheck =>
    if c.phase = .checked then
      if s.running then some (s.setCall i { c with phase := .enqueuing })
      else
        -- worker thread not running: the caller invokes the callback itself
        some (s.record i c false (afterAsync c.kind))
    else none
  | .enqueue =>
    if c.phase = .enqueuing then
      some { s.setCall i { c with phase := afterAsync c.kind } with queue := s.queue ++ [i] }
    else none
  | .wake =>
    match c.phase, c.completed with
    | .waiting, some ok => some (s.setCall i { c with phase := .returned ok })
    | _, _ => none
  | .expire =>
    if c.phase = .waiting ∧ c.completed = none ∧ c.kind = .query true then
      some (s.setCall i { c with phase := .returned false })
    else none

/-- A step of the worker. -/
def workerStep (s : State) : WorkerStep → Option State
  | .check =>
    if s.worker = .top then
      some { s with worker := if s.running then .waiting else .exited }
    else none
  | .take =>
    if s.worker = .waiting then
      match s.queue with
      | i :: queue => some { s with queue, worker := .processing i }
      -- the wait goes on until there is a request or the client stops
      | [] => if s.running then none else some { s with worker := .exited }
    else none
  | .process ok =>
    match s.worker with
    | .processing i => some { s with worker := .invoking i ok }
    | _ => none
  | .invoke =>
    match s.worker with
    | .invoking i ok =>
      s.calls[i]?.map fun c => { s.record i c ok c.phase with worker := .top }
    | _ => none

/-- A step of `start` or `stop`. -/
def controlStep (s : State) : ControlStep → Option State
  | .start =>
    if s.running then some s
    else if s.worker = .absent ∧ s.stopping = .no then
      some { s with running := true, worker := .top }
    else none
  | .stopBegin =>
    if s.stopping = .no then
      if s.running then some { s with stopping := .shutdown } else some s
    else none
  | .stopShutdown =>
    if s.stopping = .shutdown then some { s with running := false, stopping := .joining }
    else none
  | .stopJoin =>
    if s.stopping = .joining ∧ s.worker = .exited then
      some { s with worker := .absent, stopping := .draining }
    else none
  | .stopDrain =>
    if s.stopping = .draining then some { s with queue := [], stopping := .no } else none

/-- The first phase of a call. -/
def firstPhase : Kind → Phase
  | .query _ => .entered
  | .queryAsync => .checked

/-- One step of the client and its callers. -/
def step (s : State) : Label → Option State
  | .enter kind =>
    some { s with calls := s.calls ++ [{ kind, phase := firstPhase kind, completed := none }] }
  | .caller i a => s.calls[i]?.bind fun c => callerStep s i c a
  | .worker a => workerStep s a
  | .control a => controlStep s a

/-- What a step can do, one case for each branch of the step functions. -/
inductive Move (s : State) : Label → State → Prop where
  | enter (kind : Kind) :
      Move s (.enter kind)
        { s with calls := s.calls ++ [{ kind, phase := firstPhase kind, completed := none }] }
  | check {i : Nat} {c : Call} (hc : s.calls[i]? = some c) (hphase : c.phase = .entered) :
      Move s (.caller i .check)
        (s.setCall i { c with phase := if s.running then .checked else .returned false })
  | accept {i : Nat} {c : Call} (hc : s.calls[i]? = some c) (hphase : c.phase = .checked)
      (hrunning : s.running = true) :
      Move s (.caller i .asyncCheck) (s.setCall i { c with phase := .enqueuing })
  | refuse {i : Nat} {c : Call} (hc : s.calls[i]? = some c) (hphase : c.phase = .checked)
      (hrunning : s.running = false) :
      Move s (.caller i .asyncCheck) (s.record i c false (afterAsync c.kind))
  | enqueue {i : Nat} {c : Call} (hc : s.calls[i]? = some c) (hphase : c.phase = .enqueuing) :
      Move s (.caller i .enqueue)
        { s.setCall i { c with phase := afterAsync c.kind } with queue := s.queue ++ [i] }
  | wake {i : Nat} {c : Call} {ok : Bool} (hc : s.calls[i]? = some c)
      (hphase : c.phase = .waiting) (hcompleted : c.completed = some ok) :
      Move s (.caller i .wake) (s.setCall i { c with phase := .returned ok })
  | expire {i : Nat} {c : Call} (hc : s.calls[i]? = some c) (hphase : c.phase = .waiting)
      (hcompleted : c.completed = none) (hkind : c.kind = .query true) :
      Move s (.caller i .expire) (s.setCall i { c with phase := .returned false })
  | workerCheck (hworker : s.worker = .top) :
      Move s (.worker .check) { s with worker := if s.running then .waiting else .exited }
  | take {i : Nat} {queue : List Nat} (hworker : s.worker = .waiting)
      (hqueue : s.queue = i :: queue) :
      Move s (.worker .take) { s with queue, worker := .processing i }
  | leave (hworker : s.worker = .waiting) (hqueue : s.queue = []) (hrunning : s.running = false) :
      Move s (.worker .take) { s with worker := .exited }
  | process {i : Nat} {ok : Bool} (hworker : s.worker = .processing i) :
      Move s (.worker (.process ok)) { s with worker := .invoking i ok }
  | invoke {i : Nat} {ok : Bool} {c : Call} (hworker : s.worker = .invoking i ok)
      (hc : s.calls[i]? = some c) :
      Move s (.worker .invoke) { s.record i c ok c.phase with worker := .top }
  | startAgain (hrunning : s.running = true) : Move s (.control .start) s
  | start (hrunning : s.running = false) (hworker : s.worker = .absent)
      (hstopping : s.stopping = .no) :
      Move s (.control .start) { s with running := true, worker := .top }
  | stopBegin (hstopping : s.stopping = .no) (hrunning : s.running = true) :
      Move s (.control .stopBegin) { s with stopping := .shutdown }
  | stopAgain (hstopping : s.stopping = .no) (hrunning : s.running = false) :
      Move s (.control .stopBegin) s
  | stopShutdown (hstopping : s.stopping = .shutdown) :
      Move s (.control .stopShutdown) { s with running := false, stopping := .joining }
  | stopJoin (hstopping : s.stopping = .joining) (hworker : s.worker = .exited) :
      Move s (.control .stopJoin) { s with worker := .absent, stopping := .draining }
  | stopDrain (hstopping : s.stopping = .draining) :
      Move s (.control .stopDrain) { s with queue := [], stopping := .no }

theorem move_of_callerStep {s s' : State} {i : Nat} {c : Call} {a : CallerStep}
    (hc : s.calls[i]? = some c) (h : callerStep s i c a = some s') : Move s (.caller i a) s' := by
  cases a with
  | check =>
    rw [callerStep, Option.ite_none_right_eq_some] at h
    exact Option.some.inj h.2 ▸ .check hc h.1
  | asyncCheck =>
    rw [callerStep, Option.ite_none_right_eq_some] at h
    obtain ⟨hphase, h⟩ := h
    cases hrunning : s.running with
    | true =>
      rw [hrunning, if_pos rfl] at h
      exact Option.some.inj h ▸ .accept hc hphase hrunning
    | false =>
      rw [hrunning, if_neg (by decide)] at h
      exact Option.some.inj h ▸ .refuse hc hphase hrunning
  | enqueue =>
    rw [callerStep, Option.ite_none_right_eq_some] at h
    exact Option.some.inj h.2 ▸ .enqueue hc h.1
  | wake =>
    rw [callerStep] at h
    split at h
    · rename_i ok hphase hcompleted
      exact Option.some.inj h ▸ .wake hc hphase hcompleted
    · simp at h
  | expire =>
    rw [callerStep, Option.ite_none_right_eq_some] at h
    obtain ⟨⟨hphase, hcompleted, hkind⟩, h⟩ := h
    exact Option.some.inj h ▸ .expire hc hphase hcompleted hkind

theorem move_of_workerStep {s s' : State} {a : WorkerStep} (h : workerStep s a = some s') :
    Move s (.worker a) s' := by
  cases a with
  | check =>
    rw [workerStep, Option.ite_none_right_eq_some] at h
    exact Option.some.inj h.2 ▸ .workerCheck h.1
  | take =>
    rw [workerStep, Option.ite_none_right_eq_some] at h
    obtain ⟨hworker, h⟩ := h
    split at h
    · rename_i i queue hqueue
      exact Option.some.inj h ▸ .take hworker hqueue
    · rename_i hqueue
      rw [Option.ite_none_left_eq_some] at h
      exact Option.some.inj h.2 ▸ .leave hworker hqueue (by simpa using h.1)
  | process ok =>
    rw [workerStep] at h
    split at h
    · rename_i i hworker
      exact Option.some.inj h ▸ .process hworker
    · simp at h
  | invoke =>
    rw [workerStep] at h
    split at h
    · rename_i i ok hworker
      obtain ⟨c, hc, rfl⟩ := Option.map_eq_some_iff.mp h
      exact .invoke hworker hc
    · simp at h

theorem move_of_controlStep {s s' : State} {a : ControlStep} (h : controlStep s a = some s') :
    Move s (.control a) s' := by
  cases a with
  | start =>
    rw [controlStep] at h
    split at h
    · rename_i hrunning
      exact Option.some.inj h ▸ .startAgain hrunning
    · rename_i hrunning
      rw [Option.ite_none_right_eq_some] at h
      exact Option.some.inj h.2 ▸ .start (by simpa using hrunning) h.1.1 h.1.2
  | stopBegin =>
    rw [controlStep, Option.ite_none_right_eq_some] at h
    obtain ⟨hstopping, h⟩ := h
    split at h
    · rename_i hrunning
      exact Option.some.inj h ▸ .stopBegin hstopping hrunning
    · rename_i hrunning
      exact Option.some.inj h ▸ .stopAgain hstopping (by simpa using hrunning)
  | stopShutdown =>
    rw [controlStep, Option.ite_none_right_eq_some] at h
    exact Option.some.inj h.2 ▸ .stopShutdown h.1
  | stopJoin =>
    rw [controlStep, Option.ite_none_right_eq_some] at h
    exact Option.some.inj h.2 ▸ .stopJoin h.1.1 h.1.2
  | stopDrain =>
    rw [controlStep, Option.ite_none_right_eq_some] at h
    exact Option.some.inj h.2 ▸ .stopDrain h.1

/-- A step that fires is one of the cases of `Move`. -/
theorem move_of_step {s s' : State} {l : Label} (h : step s l = some s') : Move s l s' := by
  cases l with
  | enter kind => exact Option.some.inj h ▸ .enter kind
  | caller i a =>
    obtain ⟨c, hc, h⟩ := Option.bind_eq_some_iff.mp h
    exact move_of_callerStep hc h
  | worker a => exact move_of_workerStep h
  | control a => exact move_of_controlStep h

/-! ## The invariant -/

/-- The request that the worker has taken and not yet answered. -/
def Worker.held : Worker → List Nat
  | .processing i => [i]
  | .invoking i _ => [i]
  | .absent | .top | .waiting | .exited => []

/-- The calls whose request is in the queue or with the worker. -/
def State.pending (s : State) : List Nat := s.queue ++ s.worker.held

/-- A call whose callback can still come: it has not run, and a `query` call
is in its wait. -/
def Call.Awaits (c : Call) : Prop :=
  c.completed = none ∧ (c.phase = .waiting ∨ c.kind = .queryAsync ∧ c.phase = .returned true)

/-- A call that has not enqueued its request. -/
def Call.Early (c : Call) : Prop :=
  c.phase = .entered ∨ c.phase = .checked ∨ c.phase = .enqueuing

/-- No request is pending twice, the call of a pending request awaits its
callback, a callback does not run before the request is enqueued, and the
callbacks of `query` calls have run in time. -/
structure Inv (s : State) : Prop where
  nodup : s.pending.Nodup
  awaits : ∀ i ∈ s.pending, ∃ c, s.calls[i]? = some c ∧ c.Awaits
  early : ∀ (i : Nat) (c : Call), s.calls[i]? = some c → c.Early → c.completed = none
  inTime : ∀ v ∈ s.invoked, ∃ c : Call, s.calls[v.call]? = some c ∧
    (c.kind ≠ .queryAsync → v.afterReturn = false)

theorem inv_init : Inv init where
  nodup := List.nodup_nil
  awaits := by intro i hi; simp [init, State.pending, Worker.held] at hi
  early := by intro i c hc; simp [init] at hc
  inTime := by intro v hv; simp [init] at hv

/-- A call that does not await a callback has no pending request. -/
theorem Inv.not_pending {s : State} (h : Inv s) {i : Nat} {c : Call}
    (hc : s.calls[i]? = some c) (hnot : ¬ c.Awaits) : i ∉ s.pending := by
  intro hi
  obtain ⟨c', hc', hawaits⟩ := h.awaits i hi
  rw [hc] at hc'
  exact hnot (Option.some.inj hc' ▸ hawaits)

/-- Fewer or reordered pending requests keep the invariant. -/
theorem Inv.of_pending {s s' : State} (h : Inv s) (hcalls : s'.calls = s.calls)
    (hinvoked : s'.invoked = s.invoked) (hsub : s'.pending.Subperm s.pending) : Inv s' where
  nodup := by
    obtain ⟨ids, hperm, hsublist⟩ := hsub
    exact hperm.nodup_iff.mp (h.nodup.sublist hsublist)
  awaits := by
    intro i hi
    rw [hcalls]
    exact h.awaits i (hsub.subset hi)
  early := by
    rw [hcalls]
    exact h.early
  inTime := by
    rw [hcalls, hinvoked]
    exact h.inTime

/-- Changing a call that has no pending request keeps the invariant, also when
its callback is invoked in time on the way. -/
theorem Inv.set_call {s : State} (h : Inv s) {i : Nat} {c : Call}
    (hc : s.calls[i]? = some c) (hpending : i ∉ s.pending) (c' : Call)
    (hkind : c'.kind = c.kind) (hearly : c'.Early → c'.completed = none)
    (invoked : List Invocation)
    (hinvoked : ∀ v ∈ invoked, v.call = i ∧ (c.kind ≠ .queryAsync → v.afterReturn = false)) :
    Inv { s with calls := s.calls.set i c', invoked := s.invoked ++ invoked } := by
  refine ⟨h.nodup, ?_, ?_, ?_⟩
  · intro j hj
    have hne : i ≠ j := fun heq => hpending (heq ▸ hj)
    simp only [List.getElem?_set_ne hne]
    exact h.awaits j hj
  · intro j d hd
    rcases getElem?_set_cases hd with ⟨-, rfl⟩ | ⟨-, hd⟩
    · exact hearly
    · exact h.early j d hd
  · intro v hv
    obtain ⟨d, hd, htime⟩ : ∃ d : Call, s.calls[v.call]? = some d ∧
        (d.kind ≠ .queryAsync → v.afterReturn = false) := by
      rcases List.mem_append.mp hv with hv | hv
      · exact h.inTime v hv
      · obtain ⟨hcall, htime⟩ := hinvoked v hv
        exact ⟨c, hcall ▸ hc, htime⟩
    -- the call of an invocation keeps its kind
    apply exists_getElem?_set hd htime
    intro hd' hsync
    obtain rfl : c = d := Option.some.inj (hc.symm.trans hd')
    exact htime (hkind ▸ hsync)

/-- Enqueuing the request of a call that awaits its callback keeps the
invariant. -/
theorem Inv.push {s : State} (h : Inv s) {i : Nat} {c : Call} (hpending : i ∉ s.pending)
    (hc : s.calls[i]? = some c) (hawaits : c.Awaits) :
    Inv { s with queue := s.queue ++ [i] } := by
  have hperm : (s.queue ++ [i] ++ s.worker.held).Perm (i :: s.pending) := by
    rw [State.pending, List.append_assoc, List.singleton_append]
    exact List.perm_middle
  refine ⟨hperm.nodup_iff.mpr (List.nodup_cons.mpr ⟨hpending, h.nodup⟩), ?_, h.early, h.inTime⟩
  intro j hj
  rcases List.mem_cons.mp (hperm.mem_iff.mp hj) with rfl | hj
  · exact ⟨c, hc, hawaits⟩
  · exact h.awaits j hj

theorem Call.Early.not_awaits {c : Call} (h : c.Early) : ¬ c.Awaits := by
  rintro ⟨-, hphase⟩
  rcases h with h | h | h <;> simp [h] at hphase

theorem awaits_afterAsync {c : Call} (h : c.completed = none) :
    Call.Awaits { c with phase := afterAsync c.kind } := by
  refine ⟨h, ?_⟩
  cases hk : c.kind with
  | query timed => exact .inl rfl
  | queryAsync => exact .inr ⟨rfl, rfl⟩

theorem not_early_afterAsync {c : Call} {completed : Option Bool} :
    ¬ Call.Early { c with completed := completed, phase := afterAsync c.kind } := by
  cases hk : c.kind <;> simp [Call.Early, afterAsync]

/-- The same without an invocation. -/
theorem Inv.setCall {s : State} (h : Inv s) {i : Nat} {c : Call}
    (hc : s.calls[i]? = some c) (hpending : i ∉ s.pending) (c' : Call)
    (hkind : c'.kind = c.kind) (hearly : c'.Early → c'.completed = none) :
    Inv (s.setCall i c') := by
  have hset := h.set_call hc hpending c' hkind hearly [] (by simp)
  rwa [List.append_nil] at hset

/-- A new call. -/
theorem inv_enter {s : State} (h : Inv s) (kind : Kind) :
    Inv { s with
      calls := s.calls ++ [{ kind, phase := firstPhase kind, completed := none }] } := by
  refine ⟨h.nodup, ?_, ?_, ?_⟩
  · intro i hi
    obtain ⟨c, hc, hawaits⟩ := h.awaits i hi
    exact ⟨c, getElem?_concat.mpr (.inl hc), hawaits⟩
  · intro i c hc hearly
    rcases getElem?_concat.mp hc with hc | ⟨-, rfl⟩
    · exact h.early i c hc hearly
    · rfl
  · intro v hv
    obtain ⟨c, hc, htime⟩ := h.inTime v hv
    exact ⟨c, getElem?_concat.mpr (.inl hc), htime⟩

/-- The guard: a wait expires only when its request is neither in the queue nor
with the worker, so that its callback cannot come any more. -/
def ExpiresLate (s : State) (l : Label) : Prop :=
  ∀ i, l = .caller i .expire → i ∉ s.pending

theorem inv_step {s s' : State} {l : Label} (h : Inv s) (hguard : ExpiresLate s l)
    (hstep : step s l = some s') : Inv s' := by
  cases move_of_step hstep with
  | enter kind => exact inv_enter h kind
  | @check i c hc hphase =>
    have hearly : c.Early := .inl hphase
    exact h.setCall hc (h.not_pending hc hearly.not_awaits) _ rfl fun _ => h.early i c hc hearly
  | @accept i c hc hphase =>
    have hearly : c.Early := .inr (.inl hphase)
    exact h.setCall hc (h.not_pending hc hearly.not_awaits) _ rfl fun _ => h.early i c hc hearly
  | @refuse i c hc hphase =>
    have hearly : c.Early := .inr (.inl hphase)
    refine h.set_call hc (h.not_pending hc hearly.not_awaits)
      { c with completed := some false, phase := afterAsync c.kind } rfl
      (fun he => absurd he not_early_afterAsync) _ ?_
    simp [hphase, Phase.isReturned]
  | @enqueue i c hc hphase =>
    have hearly : c.Early := .inr (.inr hphase)
    have hpending := h.not_pending hc hearly.not_awaits
    have hset := h.setCall hc hpending { c with phase := afterAsync c.kind } rfl
      fun he => absurd he not_early_afterAsync
    exact hset.push hpending (List.getElem?_set_self (List.getElem?_eq_some_iff.mp hc).1)
      (awaits_afterAsync (h.early i c hc hearly))
  | wake hc hphase hcompleted =>
    refine h.setCall hc (h.not_pending hc ?_) _ rfl (by simp [Call.Early])
    intro hawaits
    exact absurd hawaits.1 (by simp [hcompleted])
  | expire hc => exact h.setCall hc (hguard _ rfl) _ rfl (by simp [Call.Early])
  | workerCheck hworker =>
    refine h.of_pending rfl rfl ?_
    cases hr : s.running <;> simp [State.pending, hworker, Worker.held, List.Subperm.refl]
  | @take i queue hworker hqueue =>
    refine h.of_pending rfl rfl (List.Perm.subperm ?_)
    simp only [State.pending, hqueue, hworker, Worker.held, List.append_nil]
    exact List.perm_append_singleton i queue
  | leave hworker | start _ hworker | stopJoin _ hworker =>
    refine h.of_pending rfl rfl ?_
    simp [State.pending, hworker, Worker.held, List.Subperm.refl]
  | process hworker =>
    refine h.of_pending rfl rfl ?_
    simp [State.pending, hworker, Worker.held, List.Subperm.refl]
  | @invoke i ok c hworker hc =>
    have hpending : s.pending = s.queue ++ [i] := by
      rw [State.pending, hworker, Worker.held]
    obtain ⟨c', hc', hawaits⟩ := h.awaits i (by simp [hpending])
    obtain rfl : c' = c := Option.some.inj (hc'.symm.trans hc)
    -- first the worker lets go of the request, then the callback runs
    have htop : Inv { s with worker := .top } := by
      refine h.of_pending rfl rfl (List.Sublist.subperm ?_)
      simp [State.pending, hworker, Worker.held]
    have hfree : i ∉ State.pending { s with worker := .top } := by
      have hnodup := h.nodup
      rw [hpending, List.nodup_append] at hnodup
      simp only [State.pending, Worker.held, List.append_nil]
      exact fun hi => hnodup.2.2 i hi i (by simp) rfl
    refine htop.set_call hc hfree { c' with completed := some ok, phase := c'.phase } rfl
      (fun hearly => absurd hawaits (Call.Early.not_awaits hearly)) _ ?_
    intro v hv
    obtain rfl := List.mem_singleton.mp hv
    refine ⟨rfl, fun hsync => ?_⟩
    rcases hawaits.2 with hphase | ⟨hkind, -⟩
    · rw [hphase]
      rfl
    · exact absurd hkind hsync
  | startAgain | stopAgain => exact h
  | stopBegin | stopShutdown => exact h.of_pending rfl rfl (List.Subperm.refl _)
  | stopDrain =>
    refine h.of_pending rfl rfl (List.Sublist.subperm ?_)
    simp [State.pending]

/-! ## Runs -/

/-- Lifetime of the callbacks.  In every run in which a wait expires only when
its request is gone, no callback of a `query` call is invoked after that call
has returned. -/
theorem callbacks_in_time (labels : List Label) (s : State)
    (hrun : Runs step ExpiresLate init labels s) :
    ∀ v ∈ s.invoked, ∀ c, s.calls[v.call]? = some c → c.kind ≠ .queryAsync →
      v.afterReturn = false := by
  have hinv : Inv s := hrun.invariant (fun _ _ _ h hguard hstep => inv_step h hguard hstep)
    inv_init
  intro v hv c hc hsync
  obtain ⟨c', hc', htime⟩ := hinv.inTime v hv
  obtain rfl : c' = c := Option.some.inj (hc'.symm.trans hc)
  exact htime hsync

/-- A `query` call with a timeout, up to the moment where the worker is about
to invoke its callback. -/
def timedQuery : List Label :=
  [.control .start, .enter (.query true), .caller 0 .check, .caller 0 .asyncCheck,
    .caller 0 .enqueue, .worker .check, .worker .take, .worker (.process true)]

/-- The callback comes first, and the call returns with its result. -/
theorem callbacks_in_time_of_wake :
    ∃ s, Runs step ExpiresLate init (timedQuery ++ [.worker .invoke, .caller 0 .wake]) s ∧
      s.invoked = [⟨0, true, false⟩] ∧
      ∀ v ∈ s.invoked, ∀ c, s.calls[v.call]? = some c → c.kind ≠ .queryAsync →
        v.afterReturn = false := by
  have hexec : exec step init (timedQuery ++ [.worker .invoke, .caller 0 .wake]) =
      some { running := true, queue := [], worker := .top, stopping := .no
             calls := [⟨.query true, .returned true, some true⟩]
             invoked := [⟨0, true, false⟩] } := by decide
  have hrun := runs_of_exec (G := ExpiresLate) (by simp [timedQuery, ExpiresLate]) hexec
  exact ⟨_, hrun, rfl, callbacks_in_time _ _ hrun⟩

/-- The wait expires while the worker processes the request.  The call returns,
and its callback is invoked afterwards. -/
theorem expired_callback_is_invoked :
    ∃ s, Runs step anyStep init (timedQuery ++ [.caller 0 .expire, .worker .invoke]) s ∧
      s.calls = [⟨.query true, .returned false, some true⟩] ∧
      s.invoked = [⟨0, true, true⟩] := by
  have hexec : exec step init (timedQuery ++ [.caller 0 .expire, .worker .invoke]) =
      some { running := true, queue := [], worker := .top, stopping := .no
             calls := [⟨.query true, .returned false, some true⟩]
             invoked := [⟨0, true, true⟩] } := by decide
  exact ⟨_, runs_of_exec (fun _ _ _ => trivial) hexec, rfl, rfl⟩

end OracleMachine.Node.QueryCallbacks
