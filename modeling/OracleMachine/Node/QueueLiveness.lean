import OracleMachine.Lib.Progress
import OracleMachine.Node.QueueMonitor

/-!
# Liveness of an interface client

What the worker, its callers and `stop` do in the end, for the machine of
`QueueMonitor`.

* `stop_returns_unless_missed`: once `stop` has cleared `_running`, the threads of the
  client make a bounded number of steps, and they come to a halt before `stop` returns
  only in the states of `Missed`: the worker sleeps, `stop` waits for it, and no
  caller is left that would notify it.
* `missed_wakeup`: that happens only if the last notification of this `stop` comes
  between the worker's test of its predicate and its sleep, and then `stop` does not
  return unless the worker wakes up for no reason.
* `queued_requests_are_taken`: while the client runs, requests are taken in their
  order, each after a bounded number of steps of the worker.
-/

namespace OracleMachine.Node.QueueMonitor

open Lib.Transition Lib.Entries
open QueryCallbacks (Kind)

/-! ## Who can move -/

/-- The steps of the threads of the client: the worker, `stop`, and the callers from
the lock of the queue to the end of `queryAsync`. -/
def Label.isClient : Label → Bool
  | .worker _ => true
  | .control .start | .control .stopBegin => false
  | .control _ => true
  | .caller _ .lock | .caller _ .push | .caller _ .unlock | .caller _ .notify
  | .caller _ .count => true
  | .caller _ _ | .enter _ => false

/-- Some thread of the client can make a step, other than to wake up for no reason. -/
def CanGoOn (s : State) : Prop :=
  ∃ l : Label, l.isClient = true ∧ l ≠ .worker .wakeup ∧ (step s l).isSome = true

section

variable {s : State}

theorem canGoOn_worker {a : WorkerStep} (hwakeup : a ≠ .wakeup)
    (h : (workerStep s a).isSome = true) : CanGoOn s :=
  ⟨.worker a, rfl, fun heq => hwakeup (Label.worker.inj heq), h⟩

theorem canGoOn_caller {i : Nat} {c : Call} {a : CallerStep} (hc : s.calls[i]? = some c)
    (hclient : Label.isClient (.caller i a) = true) (h : (callerStep s i c a).isSome = true) :
    CanGoOn s :=
  ⟨.caller i a, hclient, by simp, by rwa [step, hc, Option.bind_some]⟩

theorem canGoOn_control {a : ControlStep} (hclient : Label.isClient (.control a) = true)
    (h : (controlStep s a).isSome = true) : CanGoOn s :=
  ⟨.control a, hclient, by simp, h⟩

/-- The holder of the lock is not held up. -/
theorem canGoOn_of_holder (h : Inv s) {t : Thread} (ht : s.holder = some t) : CanGoOn s := by
  have hinside := (h.lock t).mp ht
  cases t with
  | worker =>
    rw [inside] at hinside
    cases hw : s.worker with
    | testing => exact canGoOn_worker (a := .test) (by simp) (by simp [workerStep, hw])
    | blocking => exact canGoOn_worker (a := .block) (by simp) (by simp [workerStep, hw])
    | ready =>
      refine canGoOn_worker (a := .take) (by simp) ?_
      cases hq : s.queue <;> simp [workerStep, hw, hq]
    | _ => simp [hw, Worker.inside] at hinside
  | caller i =>
    rw [inside, Option.any_eq_true] at hinside
    obtain ⟨c, hc, hphase⟩ := hinside
    cases hp : c.phase with
    | pushing => exact canGoOn_caller (a := .push) hc rfl (by simp [callerStep, hp])
    | unlocking => exact canGoOn_caller (a := .unlock) hc rfl (by simp [callerStep, hp])
    | _ => simp [hp, Phase.inside] at hphase
  | control =>
    rw [inside] at hinside
    cases hs : s.stopping with
    | draining => exact canGoOn_control (a := .drain) rfl (by simp [controlStep, hs])
    | unlocking => exact canGoOn_control (a := .unlock) rfl (by simp [controlStep, hs])
    | _ => simp [hs, Stopping.inside] at hinside

/-- A thread that only needs the lock is held up by nobody but its holder. -/
theorem canGoOn_of_lock (h : Inv s) (hfree : s.holder = none → CanGoOn s) : CanGoOn s := by
  cases hholder : s.holder with
  | none => exact hfree hholder
  | some t => exact canGoOn_of_holder h hholder

/-- A worker that is neither asleep nor at its end can go on. -/
theorem canGoOn_of_worker (h : Inv s) (habsent : s.worker ≠ .absent)
    (hblocked : s.worker ≠ .blocked) (hexited : s.worker ≠ .exited) : CanGoOn s := by
  cases hw : s.worker with
  | absent => exact absurd hw habsent
  | blocked => exact absurd hw hblocked
  | exited => exact absurd hw hexited
  | top => exact canGoOn_worker (a := .check) (by simp) (by simp [workerStep, hw])
  | locking | woken =>
    refine canGoOn_of_lock h fun hfree => canGoOn_worker (a := .lock) (by simp) ?_
    simp [workerStep, hw, hfree]
  | testing | blocking | ready =>
    have hinside : inside s.worker s.stopping s.calls .worker = true := by rw [inside, hw]; rfl
    exact canGoOn_of_holder h ((h.lock .worker).mpr hinside)
  | processing i =>
    exact canGoOn_worker (a := .process true) (by simp) (by simp [workerStep, hw])
  | invoking i ok =>
    have hi : i < s.calls.length := h.known i (by simp [hw, Worker.held])
    refine canGoOn_worker (a := .invoke) (by simp) ?_
    simp [workerStep, hw, hi]

end

/-! ## What is left to do for `stop` -/

/-- The steps of the worker until it exits, when the client does not run. -/
def Worker.work : Worker → Nat
  | .absent | .exited => 0
  | .top => 1
  | .invoking _ _ => 2
  | .processing _ => 3
  | .ready => 4
  | .testing => 5
  | .locking | .woken => 6
  | .blocked => 7
  | .blocking => 8

/-- The steps of `stop` until it returns. -/
def Stopping.work : Stopping → Nat
  | .no => 0
  | .unlocking => 1
  | .draining => 2
  | .locking => 3
  | .joining => 4
  | .notifyingAgain => 5
  | .clearingAgain => 6
  | .notifying => 7
  | .clearing => 8

/-- The steps of a call from the lock to the end of `queryAsync`. -/
def Phase.work : Phase → Nat
  | .enqueuing => 5
  | .pushing => 4
  | .unlocking => 3
  | .notifying => 2
  | .counting => 1
  | _ => 0

def workLeft (s : State) : Nat :=
  s.worker.work + s.stopping.work + (s.calls.map (·.phase.work)).sum

theorem Worker.work_notified_le (w : Worker) : w.notified.work ≤ w.work := by
  cases w <;> simp [Worker.notified, Worker.work]

theorem work_afterAsync (kind : Kind) : (afterAsync kind).work = 0 := by
  cases kind <;> rfl

theorem work_firstPhase (kind : Kind) : (firstPhase kind).work = 0 := by
  cases kind <;> rfl

/-- `stop` has not returned. -/
def stopGoesOn (s : State) (_ : Label) : Prop := s.stopping ≠ .no

/-- `stop` has cleared `_running`, or has returned since. -/
def Stops (s : State) : Prop := Inv s ∧ (s.stopping.cleared = true ∨ s.stopping = .no)

theorem cleared_controlMove {s s' : State} {a : ControlStep} (h : Controlled s)
    (hcleared : s.stopping.cleared = true) (hmove : ControlMove s a s') :
    s'.stopping.cleared = true ∨ s'.stopping = .no := by
  have hrunning := h.cleared hcleared
  cases hmove with
  | startAgain | stopAgain => exact .inl hcleared
  | start _ _ hstopping | stopBegin hstopping | clear hstopping =>
    rw [hstopping] at hcleared
    exact absurd hcleared (by decide)
  | unlock => exact .inr rfl
  | notify | clearAgain | notifyAgain | join | lock | drain => exact .inl rfl

theorem stops_step {s s' : State} {l : Label} (h : Stops s) (hguard : stopGoesOn s l)
    (hstep : step s l = some s') : Stops s' := by
  have hcleared := h.2.resolve_right hguard
  refine ⟨inv_step h.1 hstep, ?_⟩
  cases move_of_step hstep with
  | enter kind => exact h.2
  | caller hc hmove =>
    rw [(callMove_frame hmove).2.1]
    exact h.2
  | worker hmove =>
    rw [(workerMove_frame hmove).2.1]
    exact h.2
  | control hmove => exact cleared_controlMove h.1.control hcleared hmove

/-- A step of a call lowers the work of the client as it lowers that of the call. -/
theorem workLeft_of_call {s s' : State} {i n : Nat} {c c' : Call} (hc : s.calls[i]? = some c)
    (hcalls : s'.calls = s.calls.set i c') (hworker : s'.worker.work ≤ s.worker.work)
    (hstopping : s'.stopping = s.stopping) (hphase : n + c'.phase.work ≤ c.phase.work) :
    n + workLeft s' ≤ workLeft s := by
  have hsum := sum_map_set hc (·.phase.work) c'
  simp only [workLeft, hcalls, hstopping]
  omega

theorem workLeft_callMove {s s' : State} {i : Nat} {c : Call} {a : CallerStep}
    (hrunning : s.running = false) (hc : s.calls[i]? = some c) (hmove : CallMove s i c a s') :
    (Label.isClient (.caller i a)).toNat + workLeft s' ≤ workLeft s := by
  cases hmove with
  | check hphase =>
    refine workLeft_of_call hc rfl (Nat.le_refl _) rfl ?_
    simp [hrunning, Phase.work, Label.isClient]
  | accept hphase hrun =>
    rw [hrunning] at hrun
    simp at hrun
  | refuse hphase =>
    refine workLeft_of_call hc rfl (Nat.le_refl _) rfl ?_
    simp [work_afterAsync, Label.isClient]
  | wake hphase | expire hphase =>
    refine workLeft_of_call hc rfl (Nat.le_refl _) rfl ?_
    simp [Phase.work, Label.isClient]
  | count hphase =>
    refine workLeft_of_call hc rfl (Nat.le_refl _) rfl ?_
    rw [work_afterAsync, hphase]
    exact Nat.le_refl 1
  | lock hphase | push hphase | unlock hphase =>
    refine workLeft_of_call hc rfl (Nat.le_refl _) rfl ?_
    simp [hphase, Phase.work, Label.isClient]
  | notify hphase =>
    refine workLeft_of_call hc rfl (Worker.work_notified_le _) rfl ?_
    simp [hphase, Phase.work, Label.isClient]

theorem workLeft_workerMove {s s' : State} {a : WorkerStep} (hrunning : s.running = false)
    (hmove : WorkerMove s a s') : workLeft s' < workLeft s := by
  cases hmove with
  | check hworker | leave hworker =>
    simp [workLeft, hworker, hrunning, Worker.work]
  | lock hworker =>
    rcases hworker with hworker | hworker <;> simp [workLeft, hworker, Worker.work]
  | fail _ _ hrun =>
    rw [hrunning] at hrun
    simp at hrun
  | pass hworker | block hworker | wakeup hworker | take hworker | process hworker =>
    simp [workLeft, hworker, Worker.work]
  | @invoke i ok c hworker hc =>
    have hsum := sum_map_set hc (·.phase.work) { c with completed := some ok }
    simp only [workLeft, State.setCall, hworker, Worker.work] at hsum ⊢
    omega

theorem workLeft_controlMove {s s' : State} {a : ControlStep} (h : Controlled s)
    (hcleared : s.stopping.cleared = true) (hmove : ControlMove s a s') :
    (Label.isClient (.control a)).toNat + workLeft s' ≤ workLeft s := by
  have hrunning := h.cleared hcleared
  cases hmove with
  | startAgain | stopAgain => simp [Label.isClient]
  | start _ _ hstopping | stopBegin hstopping | clear hstopping =>
    rw [hstopping] at hcleared
    exact absurd hcleared (by decide)
  | notify hstopping | notifyAgain hstopping =>
    have hle := s.worker.work_notified_le
    simp only [workLeft, hstopping, Stopping.work, Label.isClient, Bool.toNat_true]
    omega
  | join hstopping hworker =>
    simp [workLeft, hstopping, hworker, Stopping.work, Worker.work, Label.isClient]
    omega
  | clearAgain hstopping | lock hstopping | drain hstopping | unlock hstopping =>
    simp only [workLeft, hstopping, Stopping.work, Label.isClient, Bool.toNat_true]
    omega

theorem workLeft_step {s s' : State} {l : Label} (h : Stops s) (hguard : stopGoesOn s l)
    (hstep : step s l = some s') : l.isClient.toNat + workLeft s' ≤ workLeft s := by
  have hcleared := h.2.resolve_right hguard
  have hrunning := h.1.control.cleared hcleared
  cases move_of_step hstep with
  | enter kind => simp [workLeft, work_firstPhase, Label.isClient]
  | caller hc hmove => exact workLeft_callMove hrunning hc hmove
  | worker hmove =>
    rw [Label.isClient, Bool.toNat_true, Nat.add_comm]
    exact workLeft_workerMove hrunning hmove
  | control hmove => exact workLeft_controlMove h.1.control hcleared hmove

/-! ## The missed notification -/

/-- `stop` waits for a worker that sleeps, and no caller will notify it. -/
def Missed (s : State) : Prop :=
  s.stopping = .joining ∧ s.worker = .blocked ∧ ∀ c ∈ s.calls, c.phase.work = 0

/-- A caller between its lock and its return can go on. -/
theorem canGoOn_of_caller {s : State} (h : Inv s) {c : Call} (hmem : c ∈ s.calls)
    (hwork : c.phase.work ≠ 0) : CanGoOn s := by
  obtain ⟨i, hc⟩ := List.mem_iff_getElem?.mp hmem
  cases hp : c.phase with
  | enqueuing =>
    refine canGoOn_of_lock h fun hfree => canGoOn_caller (a := .lock) hc rfl ?_
    simp [callerStep, hp, hfree]
  | pushing => exact canGoOn_caller (a := .push) hc rfl (by simp [callerStep, hp])
  | unlocking => exact canGoOn_caller (a := .unlock) hc rfl (by simp [callerStep, hp])
  | notifying => exact canGoOn_caller (a := .notify) hc rfl (by simp [callerStep, hp])
  | counting =>
    refine canGoOn_of_lock h fun hfree => canGoOn_caller (a := .count) hc rfl ?_
    simp [callerStep, hp, hfree]
  | _ => simp [hp, Phase.work] at hwork

/-- Unless the notification was missed, `stop` is not held up. -/
theorem canGoOn_of_not_missed {s : State} (h : Inv s) (hcleared : s.stopping.cleared = true)
    (hmissed : ¬ Missed s) : CanGoOn s := by
  cases hs : s.stopping with
  | no | clearing => simp [hs, Stopping.cleared] at hcleared
  | notifying => exact canGoOn_control (a := .notify) rfl (by simp [controlStep, hs])
  | clearingAgain => exact canGoOn_control (a := .clearAgain) rfl (by simp [controlStep, hs])
  | notifyingAgain => exact canGoOn_control (a := .notifyAgain) rfl (by simp [controlStep, hs])
  | joining =>
    have habsent := h.control.present (by simp [hs]) (by simp [hs, Stopping.joined])
    by_cases hblocked : s.worker = .blocked
    · -- a caller that is not through `queryAsync` goes on
      obtain ⟨c, hc, hwork⟩ : ∃ c ∈ s.calls, c.phase.work ≠ 0 := by
        by_contra hnone
        push Not at hnone
        exact hmissed ⟨hs, hblocked, hnone⟩
      exact canGoOn_of_caller h hc hwork
    · by_cases hexited : s.worker = .exited
      · exact canGoOn_control (a := .join) rfl (by simp [controlStep, hs, hexited])
      · exact canGoOn_of_worker h habsent hblocked hexited
  | locking =>
    refine canGoOn_of_lock h fun hfree => canGoOn_control (a := .lock) rfl ?_
    simp [controlStep, hs, hfree]
  | draining => exact canGoOn_control (a := .drain) rfl (by simp [controlStep, hs])
  | unlocking => exact canGoOn_control (a := .unlock) rfl (by simp [controlStep, hs])

/-- A missed notification stays missed, and nobody but the worker can change that. -/
theorem missed_step {s s' : State} {l : Label} (hinv : Inv s) (h : Missed s)
    (hwakeup : l ≠ .worker .wakeup) (hstep : step s l = some s') :
    Missed s' ∧ l.isClient = false := by
  obtain ⟨hstopping, hworker, hcalls⟩ := h
  have hrunning := hinv.control.cleared (by rw [hstopping]; rfl)
  cases move_of_step hstep with
  | enter kind =>
    refine ⟨⟨hstopping, hworker, ?_⟩, rfl⟩
    simp only [List.mem_append, List.mem_singleton]
    rintro c (hc | rfl)
    · exact hcalls c hc
    · exact work_firstPhase kind
  | @caller i c a _ hc hmove =>
    have hwork := hcalls c (List.mem_of_getElem? hc)
    have hset : ∀ c' : Call, c'.phase.work = 0 → ∀ d ∈ s.calls.set i c', d.phase.work = 0 := by
      intro c' hc' d hd
      rcases List.mem_or_eq_of_mem_set hd with hd | rfl
      · exact hcalls d hd
      · exact hc'
    cases hmove with
    | check => exact ⟨⟨hstopping, hworker, hset _ (by simp [hrunning, Phase.work])⟩, rfl⟩
    | accept _ hrun =>
      rw [hrunning] at hrun
      simp at hrun
    | refuse => exact ⟨⟨hstopping, hworker, hset _ (work_afterAsync _)⟩, rfl⟩
    | wake | expire => exact ⟨⟨hstopping, hworker, hset _ rfl⟩, rfl⟩
    | count hphase | lock hphase | push hphase | unlock hphase | notify hphase =>
      rw [hphase] at hwork
      exact absurd hwork (by decide)
  | worker hmove =>
    cases hmove with
    | wakeup => exact absurd rfl hwakeup
    | lock hw => rw [hworker] at hw; simp at hw
    | check hw | pass hw | fail hw | block hw | take hw | leave hw | process hw | invoke hw =>
      rw [hworker] at hw
      simp at hw
  | control hmove =>
    cases hmove with
    | startAgain hrun =>
      rw [hrunning] at hrun
      simp at hrun
    | start _ hw | join _ hw =>
      rw [hworker] at hw
      simp at hw
    | stopBegin hs | stopAgain hs | clear hs | notify hs | clearAgain hs | notifyAgain hs
      | lock hs | drain hs | unlock hs =>
      rw [hstopping] at hs
      simp at hs

/-- `stop` returns, or it has missed the worker.  Take any run and let `stop` have
cleared `_running` at its end.  Then some thread of the client can make a step that is
not a wake-up for no reason, except in the states of `Missed`.  And however the run
goes on, the threads of the client make at most `workLeft` steps before `stop`
returns. -/
theorem stop_returns_unless_missed (labels : List Label) (s : State)
    (hrun : Runs step anyStep init labels s) (hcleared : s.stopping.cleared = true) :
    (CanGoOn s ↔ ¬ Missed s) ∧
    ∀ (more : List Label) (t : State), Runs step stopGoesOn s more t →
      more.countP Label.isClient ≤ workLeft s := by
  have hinv : Inv s := hrun.invariant (fun _ _ _ h _ hstep => inv_step h hstep) inv_init
  refine ⟨⟨?_, canGoOn_of_not_missed hinv hcleared⟩, ?_⟩
  · rintro ⟨l, hclient, hwakeup, henabled⟩ hmissed
    obtain ⟨s', hstep⟩ := Option.isSome_iff_exists.mp henabled
    rw [(missed_step hinv hmissed hwakeup hstep).2] at hclient
    exact absurd hclient (by decide)
  · intro more t hmore
    have hstops : Stops s := ⟨hinv, .inl hcleared⟩
    have hcount : more.countP Label.isClient + workLeft t ≤ workLeft s :=
      hmore.countP_add_rank_le hstops (fun _ _ _ h hguard hstep => stops_step h hguard hstep)
        fun _ _ _ h hguard hstep => workLeft_step h hguard hstep
    omega

/-- The worker goes to sleep, and `stop` is called up to its join. -/
def stopAsleep : List Label :=
  [.control .start, .worker .check, .worker .lock, .worker .test, .worker .block,
    .control .stopBegin, .control .clear, .control .notify, .control .clearAgain,
    .control .notifyAgain]

/-- The first notification wakes it, and at most ten steps are left. -/
theorem stop_returns_unless_missed_asleep :
    ∃ s, Runs step anyStep init stopAsleep s ∧ ¬ Missed s ∧ workLeft s = 10 ∧
      (CanGoOn s ↔ ¬ Missed s) ∧
      ∀ (more : List Label) (t : State), Runs step stopGoesOn s more t →
        more.countP Label.isClient ≤ workLeft s := by
  have hexec : exec step init stopAsleep =
      some { running := false, queue := [], holder := none, worker := .woken
             stopping := .joining, calls := [], invoked := [] } := by decide
  have hrun := runs_of_exec (G := anyStep) (fun _ _ _ => trivial) hexec
  obtain ⟨hgoesOn, hcount⟩ := stop_returns_unless_missed _ _ hrun rfl
  exact ⟨_, hrun, by simp [Missed], rfl, hgoesOn, hcount⟩

/-- The last notification of `stop` came when the worker had tested its predicate and
did not sleep yet. -/
def NotifiedEarly (labels : List Label) : Prop :=
  ∃ before after u, labels = before ++ .control .notifyAgain :: after ∧
    .control .notifyAgain ∉ after ∧ Runs step anyStep init before u ∧ u.worker = .blocking

theorem NotifiedEarly.concat {labels : List Label} (h : NotifiedEarly labels) {l : Label}
    (hl : l ≠ .control .notifyAgain) : NotifiedEarly (labels ++ [l]) := by
  obtain ⟨before, after, u, rfl, hlast, hrun, hworker⟩ := h
  refine ⟨before, after ++ [l], u, by simp, ?_, hrun, hworker⟩
  rw [List.mem_append, List.mem_singleton, not_or]
  exact ⟨hlast, hl.symm⟩

/-- At the join, a worker that is on its way to sleep or asleep was notified early. -/
def AsleepAtJoin (labels : List Label) (s : State) : Prop :=
  s.stopping = .joining → s.worker = .blocking ∨ s.worker = .blocked → NotifiedEarly labels

theorem asleepAtJoin_step {labels : List Label} {s s' : State} {l : Label} (hinv : Inv s)
    (hrun : Runs step anyStep init labels s) (h : AsleepAtJoin labels s)
    (hstep : step s l = some s') : AsleepAtJoin (labels ++ [l]) s' := by
  -- a step that leaves `stop` at its join and the worker where it is
  have hkeep : l ≠ .control .notifyAgain → s'.stopping = s.stopping →
      (s'.worker = .blocking → s.worker = .blocking) →
      (s'.worker = .blocked → s.worker = .blocking ∨ s.worker = .blocked) →
      AsleepAtJoin (labels ++ [l]) s' := by
    intro hl hstopping hblocking hblocked hjoining hasleep
    rw [hstopping] at hjoining
    refine (h hjoining ?_).concat hl
    rcases hasleep with hw | hw
    · exact .inl (hblocking hw)
    · exact hblocked hw
  cases move_of_step hstep with
  | enter kind => exact hkeep (by simp) rfl id .inr
  | caller hc hmove =>
    obtain ⟨-, hstopping, hworker | hworker⟩ := callMove_frame hmove
    · rw [hworker] at hkeep
      exact hkeep (by simp) hstopping id .inr
    · rw [hworker] at hkeep
      exact hkeep (by simp) hstopping Worker.notified_eq_blocking.mp
        fun hw => absurd hw (Worker.notified_ne_blocked _)
  | worker hmove =>
    cases hmove with
    | fail _ _ hrunning =>
      -- at the join the predicate holds
      intro hjoining
      have hcleared := hinv.control.cleared (by rw [show s.stopping = .joining from hjoining]; rfl)
      rw [hrunning] at hcleared
      exact absurd hcleared (by decide)
    | block hworker => exact hkeep (by simp) rfl (by simp) fun _ => .inl hworker
    | check | leave =>
      refine hkeep (by simp) rfl ?_ ?_
      · cases hrunning : s.running <;> simp
      · cases hrunning : s.running <;> simp
    | lock | pass | wakeup | take | process | invoke =>
      exact hkeep (by simp) rfl (by simp) (by simp)
  | control hmove =>
    cases hmove with
    | notifyAgain =>
      intro _ hasleep
      have hblocking := hasleep.resolve_right (Worker.notified_ne_blocked _)
      exact ⟨labels, [], s, rfl, by simp, hrun, Worker.notified_eq_blocking.mp hblocking⟩
    | startAgain | stopAgain => exact hkeep (by simp) rfl id .inr
    | start => exact hkeep (by simp) rfl (by simp) (by simp)
    | stopBegin | clear | notify | clearAgain | join | lock | drain | unlock =>
      intro hjoining
      exact absurd hjoining (by simp)

/-- The missed wake-up.  If `stop` waits for a worker that sleeps and no caller will
notify, then its last notification came between the worker's test of its predicate and its
sleep.  From then on `stop` waits, whatever the callers do, as long as the worker
does not wake up for no reason. -/
theorem missed_wakeup (labels : List Label) (s : State) (hrun : Runs step anyStep init labels s)
    (hmissed : Missed s) :
    NotifiedEarly labels ∧
    ∀ (more : List Label) (t : State),
      Runs step (fun _ l => l ≠ .worker .wakeup) s more t → Missed t := by
  have hhistory := hrun.history (I := fun labels s =>
      Inv s ∧ Runs step anyStep init labels s ∧ AsleepAtJoin labels s)
    (fun labels s l s' h _ hstep =>
      ⟨inv_step h.1 hstep, Runs.append_iff.mpr ⟨s, h.2.1, .cons trivial hstep (.nil s')⟩,
        asleepAtJoin_step h.1 h.2.1 h.2.2 hstep⟩)
    ⟨inv_init, .nil init, by simp [AsleepAtJoin, init]⟩
  obtain ⟨hinv, -, hasleep⟩ := hhistory
  refine ⟨hasleep hmissed.1 (.inr hmissed.2.1), ?_⟩
  intro more t hmore
  have hend := hmore.invariant (I := fun u => Inv u ∧ Missed u)
    (fun _ _ _ h hguard hstep =>
      ⟨inv_step h.1 hstep, (missed_step h.1 h.2 hguard hstep).1⟩) ⟨hinv, hmissed⟩
  exact hend.2

/-- `stop` is called while the worker is on its way to sleep. -/
def stopTooEarly : List Label :=
  [.control .start, .worker .check, .worker .lock, .worker .test, .control .stopBegin,
    .control .clear, .control .notify, .control .clearAgain, .control .notifyAgain,
    .worker .block]

theorem missed_wakeup_stopTooEarly :
    ∃ s, Runs step anyStep init stopTooEarly s ∧ Missed s ∧ NotifiedEarly stopTooEarly ∧
      ∀ (more : List Label) (t : State),
        Runs step (fun _ l => l ≠ .worker .wakeup) s more t → Missed t := by
  have hexec : exec step init stopTooEarly =
      some { running := false, queue := [], holder := none, worker := .blocked
             stopping := .joining, calls := [], invoked := [] } := by decide
  have hrun := runs_of_exec (G := anyStep) (fun _ _ _ => trivial) hexec
  have hmissed := missed_wakeup _ _ hrun (by simp [Missed])
  exact ⟨_, hrun, by simp [Missed], hmissed.1, hmissed.2⟩

/-! ## Requests while the client runs -/

def Label.isWorker : Label → Bool
  | .worker _ => true
  | _ => false

def Label.isTake : Label → Bool
  | .worker .take => true
  | _ => false

/-- The steps of the worker until it takes a request, if there is one. -/
def Worker.untilTake : Worker → Nat
  | .ready => 0
  | .testing => 1
  | .locking | .woken => 2
  | .top | .blocked => 3
  | .invoking _ _ => 4
  | .processing _ => 5
  | .absent | .blocking | .exited => 0

/-- A step on the way to the next request: of the worker, of the caller that holds the
lock, or of a caller that has pushed a request and not yet notified the sleeping
worker. -/
def Helps (s : State) : Label → Prop
  | .worker a => a ≠ .wakeup
  | .caller i _ => s.holder = some (.caller i) ∨
      s.worker = .blocked ∧ ∃ c, s.calls[i]? = some c ∧ c.phase.signals = true
  | _ => False

/-- The client runs, and `stop` does not end that. -/
def runsOn (s : State) (l : Label) : Prop := l ≠ .control .clear ∧ s.queue ≠ []

theorem running_step {s s' : State} {l : Label} (h : Inv s) (hrunning : s.running = true)
    (hclear : l ≠ .control .clear) (hstep : step s l = some s') : s'.running = true := by
  have hcleared : s.stopping.cleared ≠ true := by
    intro hcleared
    rw [h.control.cleared hcleared] at hrunning
    simp at hrunning
  cases move_of_step hstep with
  | enter kind => exact hrunning
  | caller hc hmove => rw [(callMove_frame hmove).1]; exact hrunning
  | worker hmove => rw [(workerMove_frame hmove).1]; exact hrunning
  | control hmove =>
    cases hmove with
    | clear => exact absurd rfl hclear
    | clearAgain hstopping =>
      rw [hstopping] at hcleared
      exact absurd rfl hcleared
    | start => rfl
    | startAgain | stopBegin | stopAgain | notify | notifyAgain | join | lock | drain
      | unlock => exact hrunning

theorem Worker.untilTake_notified_le (w : Worker) : w.notified.untilTake ≤ w.untilTake := by
  cases w <;> simp [Worker.notified, Worker.untilTake]

/-- Each step of the worker brings it nearer to the next request, and taking one starts
it again. -/
theorem untilTake_step {s s' : State} {l : Label} (h : Inv s) (hrunning : s.running = true)
    (hguard : runsOn s l) (hstep : step s l = some s') :
    l.isWorker.toNat + s'.worker.untilTake ≤ s.worker.untilTake + 6 * l.isTake.toNat := by
  obtain ⟨hclear, hqueue⟩ := hguard
  have hstopping : s.stopping.cleared ≠ true := by
    intro hcleared
    rw [h.control.cleared hcleared] at hrunning
    simp at hrunning
  cases move_of_step hstep with
  | enter kind => simp [Label.isWorker]
  | caller hc hmove =>
    obtain ⟨-, -, hworker | hworker⟩ := callMove_frame hmove
    · simp [Label.isWorker, hworker]
    · have hle := s.worker.untilTake_notified_le
      simp only [Label.isWorker, hworker, Bool.toNat_false]
      omega
  | worker hmove =>
    cases hmove with
    | check hworker => simp [Label.isWorker, Label.isTake, hworker, hrunning, Worker.untilTake]
    | lock hworker =>
      rcases hworker with hworker | hworker <;>
        simp [Label.isWorker, Label.isTake, hworker, Worker.untilTake]
    | pass hworker | wakeup hworker | take hworker | process hworker | invoke hworker =>
      simp [Label.isWorker, Label.isTake, hworker, Worker.untilTake]
    | fail _ hempty | leave _ hempty => exact absurd hempty hqueue
    | block hworker => exact absurd (h.signals.blocking hworker) hqueue
  | control hmove =>
    cases hmove with
    | startAgain | stopBegin | stopAgain => simp [Label.isWorker]
    | start hrun =>
      rw [hrunning] at hrun
      simp at hrun
    | clear => exact absurd rfl hclear
    | notify hs | clearAgain hs | notifyAgain hs | join hs | lock hs | drain hs | unlock hs =>
      rw [hs] at hstopping
      exact absurd rfl hstopping

/-- Requests leave the queue in front, one at a time, and new ones come in behind. -/
theorem queue_step {s s' : State} {l : Label} (h : Inv s) (hrunning : s.running = true)
    (hguard : runsOn s l) (hstep : step s l = some s') :
    ∃ later, s'.queue = s.queue.drop l.isTake.toNat ++ later := by
  obtain ⟨hclear, hqueue⟩ := hguard
  have hsame : s'.queue = s.queue → l.isTake = false →
      ∃ later, s'.queue = s.queue.drop l.isTake.toNat ++ later := by
    intro heq htake
    exact ⟨[], by rw [heq, htake]; simp⟩
  cases move_of_step hstep with
  | enter kind => exact hsame rfl rfl
  | caller hc hmove =>
    cases hmove with
    | @push hphase => exact ⟨[_], rfl⟩
    | check | accept | refuse | count | wake | expire | lock | unlock | notify =>
      exact hsame rfl rfl
  | worker hmove =>
    cases hmove with
    | take _ hcons => exact ⟨[], by rw [hcons]; simp [Label.isTake]⟩
    | leave _ hempty => exact absurd hempty hqueue
    | check | lock | pass | fail | block | wakeup | process | invoke => exact hsame rfl rfl
  | control hmove =>
    cases hmove with
    | drain hs =>
      rw [h.control.cleared (by rw [hs]; rfl)] at hrunning
      simp at hrunning
    | startAgain | start | stopBegin | stopAgain | clear | notify | clearAgain | notifyAgain
      | join | lock | unlock => exact hsame rfl rfl

/-- While the client runs and requests are queued, nobody waits for nothing: some step
on the way to the next request can be made. -/
theorem exists_helps {s : State} (h : Inv s) (hrunning : s.running = true) (hqueue : s.queue ≠ []) :
    ∃ l, Helps s l ∧ (step s l).isSome = true := by
  obtain ⟨habsent, hexited⟩ := h.control.running hrunning
  have hworker : ∀ a : WorkerStep, a ≠ .wakeup → (workerStep s a).isSome = true →
      ∃ l, Helps s l ∧ (step s l).isSome = true := fun a ha hstep => ⟨.worker a, ha, hstep⟩
  cases hw : s.worker with
  | absent => exact absurd hw habsent
  | exited => exact absurd hw hexited
  | top => exact hworker .check (by simp) (by simp [workerStep, hw])
  | testing => exact hworker .test (by simp) (by simp [workerStep, hw])
  | blocking => exact hworker .block (by simp) (by simp [workerStep, hw])
  | ready =>
    refine hworker .take (by simp) ?_
    cases hq : s.queue <;> simp [workerStep, hw, hq]
  | processing i => exact hworker (.process true) (by simp) (by simp [workerStep, hw])
  | invoking i ok =>
    have hi : i < s.calls.length := h.known i (by simp [hw, Worker.held])
    exact hworker .invoke (by simp) (by simp [workerStep, hw, hi])
  | locking | woken =>
    cases hholder : s.holder with
    | none => exact hworker .lock (by simp) (by simp [workerStep, hw, hholder])
    | some t =>
      have hinside := (h.lock t).mp hholder
      cases t with
      | worker => simp [inside, hw, Worker.inside] at hinside
      | control =>
        rw [inside] at hinside
        have hcleared : s.stopping.cleared = true := by
          cases hs : s.stopping <;> simp [hs, Stopping.inside] at hinside <;> rfl
        rw [h.control.cleared hcleared] at hrunning
        simp at hrunning
      | caller i =>
        rw [inside, Option.any_eq_true] at hinside
        obtain ⟨c, hc, hphase⟩ := hinside
        cases hp : c.phase with
        | pushing => exact ⟨.caller i .push, .inl hholder, by simp [step, callerStep, hc, hp]⟩
        | unlocking => exact ⟨.caller i .unlock, .inl hholder, by simp [step, callerStep, hc, hp]⟩
        | _ => simp [hp, Phase.inside] at hphase
  | blocked =>
    -- the caller that pushed while the worker slept has not notified it
    obtain ⟨i, c, hc, hphase⟩ := h.signals.blocked hw hqueue
    cases hp : c.phase with
    | unlocking =>
      exact ⟨.caller i .unlock, .inr ⟨hw, c, hc, hphase⟩, by simp [step, callerStep, hc, hp]⟩
    | notifying =>
      exact ⟨.caller i .notify, .inr ⟨hw, c, hc, hphase⟩, by simp [step, callerStep, hc, hp]⟩
    | _ => simp [hp, Phase.signals] at hphase

/-- Requests are taken.  While the client runs and its queue is not empty, some step on
the way to the next request can be made.  However the run goes on, as long as the
queue does not run empty and `stop` does not clear `_running`, requests are taken in
their order, and the worker makes at most six steps for each of them, after at most
five that finish what it has begun. -/
theorem queued_requests_are_taken (labels : List Label) (s : State)
    (hrun : Runs step anyStep init labels s) (hrunning : s.running = true)
    (hqueue : s.queue ≠ []) :
    (∃ l, Helps s l ∧ (step s l).isSome = true) ∧
    ∀ (more : List Label) (t : State), Runs step runsOn s more t →
      more.countP Label.isWorker ≤ 5 + 6 * more.countP Label.isTake ∧
      (more.countP Label.isTake ≤ s.queue.length →
        ∃ later, t.queue = s.queue.drop (more.countP Label.isTake) ++ later) := by
  have hinv : Inv s := hrun.invariant (fun _ _ _ h _ hstep => inv_step h hstep) inv_init
  refine ⟨exists_helps hinv hrunning hqueue, fun more t hmore => ⟨?_, ?_⟩⟩
  · have hcount : more.countP Label.isWorker + t.worker.untilTake ≤
        s.worker.untilTake + 6 * more.countP Label.isTake :=
      hmore.countP_amortized (I := fun u => Inv u ∧ u.running = true) ⟨hinv, hrunning⟩
        (fun _ _ _ h hguard hstep => ⟨inv_step h.1 hstep, running_step h.1 h.2 hguard.1 hstep⟩)
        fun _ _ _ h hguard hstep => untilTake_step h.1 h.2 hguard hstep
    have hle : s.worker.untilTake ≤ 5 := by cases s.worker <;> simp [Worker.untilTake]
    omega
  · have hhistory := hmore.history (I := fun as u => (Inv u ∧ u.running = true) ∧
      (as.countP Label.isTake ≤ s.queue.length →
        ∃ later, u.queue = s.queue.drop (as.countP Label.isTake) ++ later))
      ?_ ⟨⟨hinv, hrunning⟩, fun _ => ⟨[], by simp⟩⟩
    · exact hhistory.2
    · rintro as u l u' ⟨⟨hu, hru⟩, hqueue⟩ hguard hstep
      refine ⟨⟨inv_step hu hstep, running_step hu hru hguard.1 hstep⟩, ?_⟩
      have hcount : (as ++ [l]).countP Label.isTake =
          as.countP Label.isTake + l.isTake.toNat := by
        rw [List.countP_append, List.countP_singleton]
        cases l.isTake <;> rfl
      rw [hcount]
      intro hle
      obtain ⟨later, hlater⟩ := queue_step hu hru hguard hstep
      obtain ⟨before, hbefore⟩ := hqueue (by omega)
      refine ⟨before ++ later, ?_⟩
      rw [hlater, hbefore, List.drop_append_of_le_length (by rw [List.length_drop]; omega),
        List.drop_drop, List.append_assoc]

/-- Two requests are pushed while the worker sleeps, and nobody has notified it yet. -/
def pushWhileAsleep : List Label :=
  [.control .start, .worker .check, .worker .lock, .worker .test, .worker .block,
    .enter .queryAsync, .caller 0 .asyncCheck, .caller 0 .lock, .caller 0 .push,
    .caller 0 .unlock, .enter .queryAsync, .caller 1 .asyncCheck, .caller 1 .lock,
    .caller 1 .push, .caller 1 .unlock]

theorem queued_requests_are_taken_asleep :
    ∃ s, Runs step anyStep init pushWhileAsleep s ∧ s.worker = .blocked ∧ s.queue = [0, 1] ∧
      (∃ l, Helps s l ∧ (step s l).isSome = true) ∧
      ∀ (more : List Label) (t : State), Runs step runsOn s more t →
        more.countP Label.isWorker ≤ 5 + 6 * more.countP Label.isTake ∧
        (more.countP Label.isTake ≤ s.queue.length →
          ∃ later, t.queue = s.queue.drop (more.countP Label.isTake) ++ later) := by
  have hexec : exec step init pushWhileAsleep =
      some { running := true, queue := [0, 1], holder := none, worker := .blocked
             stopping := .no
             calls := [⟨.queryAsync, .notifying, none⟩, ⟨.queryAsync, .notifying, none⟩]
             invoked := [] } := by decide
  have hrun := runs_of_exec (G := anyStep) (fun _ _ _ => trivial) hexec
  obtain ⟨hhelps, hmore⟩ := queued_requests_are_taken _ _ hrun rfl (by simp)
  exact ⟨_, hrun, rfl, rfl, hhelps, hmore⟩

end OracleMachine.Node.QueueMonitor
