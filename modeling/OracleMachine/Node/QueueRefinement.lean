import OracleMachine.Lib.Simulation
import OracleMachine.Node.QueueMonitor

/-!
# The lock makes the steps of the queue atomic

`QueryCallbacks` takes a push, the wait of the worker and each part of `stop` as one
step.  `QueueMonitor` has the steps on the lock and on the condition variable in
between.  `Refines` forgets them, `refines_step` matches every step, and
`refines_queryCallbacks` is the result for runs: what holds of the calls, of the
queue and of the callbacks in every run of `QueryCallbacks` holds in every run with
the lock.
-/

namespace OracleMachine.Node.QueueMonitor

open Lib.Transition Lib.Entries

/-- The phase without the lock and the notification: the request is enqueued by the
push. -/
def Call.abstract (c : Call) : QueryCallbacks.Call where
  kind := c.kind
  phase :=
    match c.phase with
    | .entered => .entered
    | .checked => .checked
    | .enqueuing | .pushing => .enqueuing
    | .unlocking | .notifying | .counting => QueryCallbacks.afterAsync c.kind
    | .waiting => .waiting
    | .returned ok => .returned ok
  completed := c.completed

/-- The wait is one place. -/
def Worker.abstract : Worker → QueryCallbacks.Worker
  | .absent => .absent
  | .top => .top
  | .locking | .testing | .blocking | .blocked | .woken | .ready => .waiting
  | .processing i => .processing i
  | .invoking i ok => .invoking i ok
  | .exited => .exited

/-- `_running` is cleared by the first store, and the queue by the drain. -/
def Stopping.abstract : Stopping → QueryCallbacks.Stopping
  | .no | .unlocking => .no
  | .clearing => .shutdown
  | .notifying | .clearingAgain | .notifyingAgain | .joining => .joining
  | .locking | .draining => .draining

/-- The step that `QueryCallbacks` makes, if it makes one. -/
def Label.abstract : Label → Option QueryCallbacks.Label
  | .enter kind => some (.enter kind)
  | .caller i .check => some (.caller i .check)
  | .caller i .asyncCheck => some (.caller i .asyncCheck)
  | .caller i .push => some (.caller i .enqueue)
  | .caller i .wake => some (.caller i .wake)
  | .caller i .expire => some (.caller i .expire)
  | .caller _ .lock | .caller _ .unlock | .caller _ .notify | .caller _ .count => none
  | .worker .check => some (.worker .check)
  | .worker .take => some (.worker .take)
  | .worker (.process ok) => some (.worker (.process ok))
  | .worker .invoke => some (.worker .invoke)
  | .worker .lock | .worker .test | .worker .block | .worker .wakeup => none
  | .control .start => some (.control .start)
  | .control .stopBegin => some (.control .stopBegin)
  | .control .clear => some (.control .stopShutdown)
  | .control .join => some (.control .stopJoin)
  | .control .drain => some (.control .stopDrain)
  | .control .notify | .control .clearAgain | .control .notifyAgain | .control .lock
  | .control .unlock => none

/-- The same calls, queue and callbacks, without the lock. -/
structure Refines (s : State) (t : QueryCallbacks.State) : Prop where
  running : t.running = s.running
  queue : t.queue = s.queue
  worker : t.worker = s.worker.abstract
  stopping : t.stopping = s.stopping.abstract
  calls : t.calls = s.calls.map Call.abstract
  invoked : t.invoked.map (fun v => (v.call, v.success)) = s.invoked

theorem abstract_notified (w : Worker) : w.notified.abstract = w.abstract := by
  cases w <;> rfl

theorem abstract_afterAsync (c : Call) (completed : Option Bool) :
    Call.abstract { c with completed := completed, phase := afterAsync c.kind } =
      { kind := c.kind, phase := QueryCallbacks.afterAsync c.kind, completed := completed } := by
  cases hkind : c.kind <;> simp [Call.abstract, afterAsync, QueryCallbacks.afterAsync]

/-- A step of a call that `QueryCallbacks` does not see. -/
theorem Refines.of_hidden {s s' : State} {t : QueryCallbacks.State} (h : Refines s t) {i : Nat}
    {c c' : Call} (hc : s.calls[i]? = some c) (hcalls : s'.calls = s.calls.set i c')
    (hsame : c'.abstract = c.abstract) (hrunning : s'.running = s.running)
    (hqueue : s'.queue = s.queue) (hworker : s'.worker.abstract = s.worker.abstract)
    (hstopping : s'.stopping = s.stopping) (hinvoked : s'.invoked = s.invoked) :
    Refines s' t where
  running := by rw [hrunning]; exact h.running
  queue := by rw [hqueue]; exact h.queue
  worker := by rw [hworker]; exact h.worker
  stopping := by rw [hstopping]; exact h.stopping
  calls := by
    rw [hcalls, List.map_set, hsame, h.calls, set_self]
    rw [List.getElem?_map, hc, Option.map_some]
  invoked := by rw [hinvoked]; exact h.invoked

theorem Refines.of_eq {s s' : State} {t : QueryCallbacks.State} (h : Refines s t)
    (hrunning : s'.running = s.running) (hqueue : s'.queue = s.queue)
    (hworker : s'.worker.abstract = s.worker.abstract)
    (hstopping : s'.stopping.abstract = s.stopping.abstract) (hcalls : s'.calls = s.calls)
    (hinvoked : s'.invoked = s.invoked) : Refines s' t where
  running := by rw [hrunning]; exact h.running
  queue := by rw [hqueue]; exact h.queue
  worker := by rw [hworker]; exact h.worker
  stopping := by rw [hstopping]; exact h.stopping
  calls := by rw [hcalls]; exact h.calls
  invoked := by rw [hinvoked]; exact h.invoked

theorem Refines.getElem? {s : State} {t : QueryCallbacks.State} (h : Refines s t) {i : Nat}
    {c : Call} (hc : s.calls[i]? = some c) : t.calls[i]? = some c.abstract := by
  rw [h.calls, List.getElem?_map, hc, Option.map_some]

/-- A change of the call `i` in both machines. -/
theorem Refines.calls_set {s : State} {t : QueryCallbacks.State} (h : Refines s t) (i : Nat)
    {c : Call} {d : QueryCallbacks.Call} (hd : c.abstract = d) :
    t.calls.set i d = (s.calls.set i c).map Call.abstract := by
  rw [List.map_set, hd, h.calls]

theorem refines_callMove {s s' : State} {t : QueryCallbacks.State} {i : Nat} {c : Call}
    {a : CallerStep} (h : Refines s t) (hc : s.calls[i]? = some c)
    (hmove : CallMove s i c a s') :
    ∃ t', exec QueryCallbacks.step t (Label.abstract (.caller i a)).toList = some t' ∧
      Refines s' t' := by
  have hd := h.getElem? hc
  cases hmove with
  | check hphase =>
    refine ⟨t.setCall i { c.abstract with
      phase := if s.running then .checked else .returned false }, ?_, ?_⟩
    · simp [Label.abstract, exec_singleton, QueryCallbacks.step, hd, QueryCallbacks.callerStep,
        Call.abstract, hphase, h.running]
    · refine ⟨h.running, h.queue, h.worker, h.stopping, h.calls_set i ?_, h.invoked⟩
      cases hrunning : s.running <;> simp [Call.abstract]
  | accept hphase hrunning =>
    refine ⟨t.setCall i { c.abstract with phase := .enqueuing }, ?_, ?_⟩
    · simp [Label.abstract, exec_singleton, QueryCallbacks.step, hd, QueryCallbacks.callerStep,
        Call.abstract, hphase, h.running, hrunning]
    · exact ⟨h.running, h.queue, h.worker, h.stopping, h.calls_set i rfl, h.invoked⟩
  | refuse hphase hrunning =>
    refine ⟨t.record i c.abstract false (QueryCallbacks.afterAsync c.kind), ?_, ?_⟩
    · simp [Label.abstract, exec_singleton, QueryCallbacks.step, hd, QueryCallbacks.callerStep,
        Call.abstract, hphase, h.running, hrunning]
    · refine ⟨h.running, h.queue, h.worker, h.stopping,
        h.calls_set i (abstract_afterAsync c (some false)), ?_⟩
      simp only [QueryCallbacks.State.record, List.map_append, h.invoked]
      rfl
  | count hphase =>
    refine ⟨t, rfl, h.of_hidden hc rfl ?_ rfl rfl rfl rfl rfl⟩
    rw [abstract_afterAsync, Call.abstract, hphase]
  | wake hphase hcompleted =>
    rename_i ok
    refine ⟨t.setCall i { c.abstract with phase := .returned ok }, ?_, ?_⟩
    · simp [Label.abstract, exec_singleton, QueryCallbacks.step, hd, QueryCallbacks.callerStep,
        Call.abstract, hphase, hcompleted]
    · exact ⟨h.running, h.queue, h.worker, h.stopping, h.calls_set i rfl, h.invoked⟩
  | expire hphase hcompleted hkind =>
    refine ⟨t.setCall i { c.abstract with phase := .returned false }, ?_, ?_⟩
    · simp [Label.abstract, exec_singleton, QueryCallbacks.step, hd, QueryCallbacks.callerStep,
        Call.abstract, hphase, hcompleted, hkind]
    · exact ⟨h.running, h.queue, h.worker, h.stopping, h.calls_set i rfl, h.invoked⟩
  | lock hphase | unlock hphase =>
    refine ⟨t, rfl, h.of_hidden hc rfl ?_ rfl rfl rfl rfl rfl⟩
    simp only [Call.abstract, hphase]
  | push hphase =>
    refine ⟨{ t.setCall i { c.abstract with phase := QueryCallbacks.afterAsync c.kind } with
      queue := t.queue ++ [i] }, ?_, ?_⟩
    · simp [Label.abstract, exec_singleton, QueryCallbacks.step, hd, QueryCallbacks.callerStep,
        Call.abstract, hphase]
    · exact ⟨h.running, congrArg (· ++ [i]) h.queue, h.worker, h.stopping, h.calls_set i rfl,
        h.invoked⟩
  | notify hphase =>
    refine ⟨t, rfl, h.of_hidden hc rfl ?_ rfl rfl (abstract_notified _) rfl rfl⟩
    simp only [Call.abstract, hphase]

theorem refines_workerMove {s s' : State} {t : QueryCallbacks.State} {a : WorkerStep}
    (hsignals : Signals s) (h : Refines s t) (hmove : WorkerMove s a s') :
    ∃ t', exec QueryCallbacks.step t (Label.abstract (.worker a)).toList = some t' ∧
      Refines s' t' := by
  have hw := h.worker
  cases hmove with
  | check hworker =>
    rw [hworker] at hw
    refine ⟨{ t with worker := if s.running then .waiting else .exited }, ?_, ?_⟩
    · simp [Label.abstract, exec_singleton, QueryCallbacks.step, QueryCallbacks.workerStep,
        hw, Worker.abstract, h.running]
    · refine ⟨h.running, h.queue, ?_, h.stopping, h.calls, h.invoked⟩
      cases hrunning : s.running <;> rfl
  | lock hworker =>
    refine ⟨t, rfl, h.of_eq rfl rfl ?_ rfl rfl rfl⟩
    rcases hworker with hworker | hworker <;> rw [hworker] <;> rfl
  | pass hworker | fail hworker | block hworker | wakeup hworker =>
    exact ⟨t, rfl, h.of_eq rfl rfl (by rw [hworker]; rfl) rfl rfl rfl⟩
  | take hworker hqueue =>
    rename_i i queue
    rw [hworker] at hw
    refine ⟨{ t with queue, worker := .processing i }, ?_, ?_⟩
    · simp [Label.abstract, exec_singleton, QueryCallbacks.step, QueryCallbacks.workerStep,
        hw, Worker.abstract, h.queue, hqueue]
    · exact ⟨h.running, rfl, rfl, h.stopping, h.calls, h.invoked⟩
  | leave hworker hqueue =>
    -- the queue is as it was tested, so that the client has stopped
    have hrunning : s.running = false := (hsignals.ready hworker).resolve_left (· hqueue)
    rw [hworker] at hw
    refine ⟨{ t with worker := .exited }, ?_, ?_⟩
    · simp [Label.abstract, exec_singleton, QueryCallbacks.step, QueryCallbacks.workerStep,
        hw, Worker.abstract, h.queue, hqueue, h.running, hrunning]
    · exact ⟨h.running, h.queue, by rw [hrunning]; rfl, h.stopping, h.calls, h.invoked⟩
  | process hworker =>
    rename_i i ok
    rw [hworker] at hw
    refine ⟨{ t with worker := .invoking i ok }, ?_, ?_⟩
    · simp [Label.abstract, exec_singleton, QueryCallbacks.step, QueryCallbacks.workerStep,
        hw, Worker.abstract]
    · exact ⟨h.running, h.queue, rfl, h.stopping, h.calls, h.invoked⟩
  | invoke hworker hc =>
    rename_i i ok c
    rw [hworker] at hw
    refine ⟨{ t.record i c.abstract ok c.abstract.phase with worker := .top }, ?_, ?_⟩
    · simp [Label.abstract, exec_singleton, QueryCallbacks.step, QueryCallbacks.workerStep,
        hw, Worker.abstract, h.getElem? hc]
    · refine ⟨h.running, h.queue, rfl, h.stopping, ?_, ?_⟩
      · exact h.calls_set i rfl
      · simp only [QueryCallbacks.State.record, List.map_append, h.invoked]
        rfl

theorem refines_controlMove {s s' : State} {t : QueryCallbacks.State} {a : ControlStep}
    (hcontrol : Controlled s) (h : Refines s t) (hmove : ControlMove s a s') :
    ∃ t', exec QueryCallbacks.step t (Label.abstract (.control a)).toList = some t' ∧
      Refines s' t' := by
  have hs := h.stopping
  have hw := h.worker
  cases hmove with
  | startAgain hrunning =>
    refine ⟨t, ?_, h⟩
    simp [Label.abstract, exec_singleton, QueryCallbacks.step, QueryCallbacks.controlStep,
      h.running, hrunning]
  | start hrunning hworker hstopping =>
    rw [hworker] at hw
    rw [hstopping] at hs
    refine ⟨{ t with running := true, worker := .top }, ?_, ?_⟩
    · simp [Label.abstract, exec_singleton, QueryCallbacks.step, QueryCallbacks.controlStep,
        h.running, hrunning, hw, hs, Worker.abstract, Stopping.abstract]
    · exact ⟨rfl, h.queue, rfl, h.stopping, h.calls, h.invoked⟩
  | stopBegin hstopping hrunning =>
    rw [hstopping] at hs
    refine ⟨{ t with stopping := .shutdown }, ?_, ?_⟩
    · simp [Label.abstract, exec_singleton, QueryCallbacks.step, QueryCallbacks.controlStep,
        h.running, hrunning, hs, Stopping.abstract]
    · exact ⟨h.running, h.queue, h.worker, rfl, h.calls, h.invoked⟩
  | stopAgain hstopping hrunning =>
    rw [hstopping] at hs
    refine ⟨t, ?_, h⟩
    simp [Label.abstract, exec_singleton, QueryCallbacks.step, QueryCallbacks.controlStep,
      h.running, hrunning, hs, Stopping.abstract]
  | clear hstopping =>
    rw [hstopping] at hs
    refine ⟨{ t with running := false, stopping := .joining }, ?_, ?_⟩
    · simp [Label.abstract, exec_singleton, QueryCallbacks.step, QueryCallbacks.controlStep,
        hs, Stopping.abstract]
    · exact ⟨rfl, h.queue, h.worker, rfl, h.calls, h.invoked⟩
  | notify hstopping | notifyAgain hstopping =>
    exact ⟨t, rfl, h.of_eq rfl rfl (abstract_notified _) (by rw [hstopping]; rfl) rfl rfl⟩
  | clearAgain hstopping =>
    have hrunning := hcontrol.cleared (by rw [hstopping]; rfl)
    exact ⟨t, rfl, h.of_eq hrunning.symm rfl rfl (by rw [hstopping]; rfl) rfl rfl⟩
  | join hstopping hworker =>
    rw [hworker] at hw
    rw [hstopping] at hs
    refine ⟨{ t with worker := .absent, stopping := .draining }, ?_, ?_⟩
    · simp [Label.abstract, exec_singleton, QueryCallbacks.step, QueryCallbacks.controlStep,
        hs, hw, Stopping.abstract, Worker.abstract]
    · exact ⟨h.running, h.queue, rfl, rfl, h.calls, h.invoked⟩
  | lock hstopping | unlock hstopping =>
    exact ⟨t, rfl, h.of_eq rfl rfl rfl (by rw [hstopping]; rfl) rfl rfl⟩
  | drain hstopping =>
    rw [hstopping] at hs
    refine ⟨{ t with queue := [], stopping := .no }, ?_, ?_⟩
    · simp [Label.abstract, exec_singleton, QueryCallbacks.step, QueryCallbacks.controlStep,
        hs, Stopping.abstract]
    · exact ⟨h.running, rfl, h.worker, rfl, h.calls, h.invoked⟩

theorem refines_step {s s' : State} {t : QueryCallbacks.State} {l : Label} (hinv : Inv s)
    (h : Refines s t) (hstep : step s l = some s') :
    ∃ t', exec QueryCallbacks.step t l.abstract.toList = some t' ∧ Refines s' t' := by
  cases move_of_step hstep with
  | enter kind =>
    refine ⟨{ t with calls := t.calls ++
      [{ kind, phase := QueryCallbacks.firstPhase kind, completed := none }] }, ?_, ?_⟩
    · simp [Label.abstract, exec_singleton, QueryCallbacks.step]
    · refine ⟨h.running, h.queue, h.worker, h.stopping, ?_, h.invoked⟩
      rw [List.map_append, ← h.calls]
      cases kind <;> rfl
  | caller hc hmove => exact refines_callMove h hc hmove
  | worker hmove => exact refines_workerMove hinv.signals h hmove
  | control hmove => exact refines_controlMove hinv.control h hmove

theorem refines_init : Refines init QueryCallbacks.init := ⟨rfl, rfl, rfl, rfl, rfl, rfl⟩

/-- Atomicity.  Every run of the client with its lock and its condition variable is a
run of `QueryCallbacks`, whose labels are those of the steps that are not on the lock
or on the condition variable.  The two end with the same flags, queue, calls and
callbacks. -/
theorem refines_queryCallbacks (labels : List Label) (s : State)
    (hrun : Runs step anyStep init labels s) :
    ∃ t, Runs QueryCallbacks.step anyStep QueryCallbacks.init (labels.filterMap Label.abstract) t ∧
      Refines s t := by
  obtain ⟨t, hrun', -, hst⟩ := hrun.simulate (R := fun s t => Inv s ∧ Refines s t)
    ⟨inv_init, refines_init⟩ fun s a s' t h hstep => by
      obtain ⟨t', hexec, hst'⟩ := refines_step h.1 h.2 hstep
      exact ⟨t', hexec, inv_step h.1 hstep, hst'⟩
  exact ⟨t, hrun', hst⟩

/-- A request that comes while the worker sleeps. -/
def sleepAndServe : List Label :=
  [.control .start, .worker .check, .worker .lock, .worker .test, .worker .block,
    .enter (.query true), .caller 0 .check, .caller 0 .asyncCheck, .caller 0 .lock,
    .caller 0 .push, .caller 0 .unlock, .caller 0 .notify, .worker .lock, .worker .test,
    .worker .take, .caller 0 .count, .worker (.process true), .worker .invoke, .caller 0 .wake]

/-- It is a run of ten steps of `QueryCallbacks`. -/
theorem refines_queryCallbacks_sleepAndServe :
    ∃ s, Runs step anyStep init sleepAndServe s ∧ s.invoked = [(0, true)] ∧
      (sleepAndServe.filterMap Label.abstract).length = 10 ∧
      ∃ t, Runs QueryCallbacks.step anyStep QueryCallbacks.init
        (sleepAndServe.filterMap Label.abstract) t ∧ Refines s t := by
  have hexec : exec step init sleepAndServe =
      some { running := true, queue := [], holder := none, worker := .top, stopping := .no
             calls := [⟨.query true, .returned true, some true⟩]
             invoked := [(0, true)] } := by decide
  have hrun := runs_of_exec (G := anyStep) (fun _ _ _ => trivial) hexec
  exact ⟨_, hrun, rfl, rfl, refines_queryCallbacks _ _ hrun⟩

end OracleMachine.Node.QueueMonitor
