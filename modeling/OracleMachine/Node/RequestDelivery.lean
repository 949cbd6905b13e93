import OracleMachine.Lib.Entries
import OracleMachine.Node.QueryCallbacks
import Mathlib.Data.List.Count
import Mathlib.Data.List.Nodup

/-!
# Delivery of requests by an interface client

Every request that is passed to `queryAsync` should have its callback invoked
once: by the caller when the worker does not run, and by the worker otherwise.
This module follows the requests through the runs of `QueryCallbacks`.

* `Hist` relates a state to the list of requests pushed so far: a callback is
  invoked at most once, and the answered requests, the one that the worker
  holds and the queue are, in this order, a sublist of the pushed ones.
* `Passed` says which calls have gone through the check of `queryAsync`, and
  `Control` how far `stop` is.
* `Kept` is what holds while nothing is lost: a request that was passed on and
  not answered is pending, and the queue of a stopped client is empty.

`stop` drops what is in the queue without invoking a callback, and a call that
has passed its check before `stop` may push its request afterwards.
`requests_delivered_iff` says that these are the only two ways to lose a
request.  `queued_request_is_dropped` is a run with the first one.
-/

namespace OracleMachine.Node.QueryCallbacks

open Lib.Entries Lib.Transition

/-- How often the callback of the call `i` was invoked. -/
def invocations (invoked : List Invocation) (i : Nat) : Nat := invoked.countP (·.call == i)

/-- The request that a step pushes. -/
def pushedBy : Label → Option Nat
  | .caller i .enqueue => some i
  | _ => none

/-- The requests in the order in which they were pushed. -/
def pushed (labels : List Label) : List Nat := labels.filterMap pushedBy

/-- The invocations of callbacks of requests that were pushed, in order. -/
def answered (requests : List Nat) (invoked : List Invocation) : List Nat :=
  (invoked.map Invocation.call).filter (· ∈ requests)

/-- The call `i` has gone through the check of `queryAsync`. -/
def PassedOn (labels : List Label) (i : Nat) : Prop := .caller i .asyncCheck ∈ labels

/-- `stop` has returned, or the client was never started. -/
def State.Stopped (s : State) : Prop := s.running = false ∧ s.stopping = .no

/-! ## What every run keeps -/

/-- The pushed requests and the state. -/
structure Hist (requests : List Nat) (s : State) : Prop where
  count : ∀ (i : Nat) (c : Call), s.calls[i]? = some c →
    invocations s.invoked i = if c.completed.isSome then 1 else 0
  known : ∀ v ∈ s.invoked, ∃ c, s.calls[v.call]? = some c
  late : ∀ i ∈ requests, ∃ c, s.calls[i]? = some c ∧ ¬ c.Early
  early : ∀ (i : Nat) (c : Call), s.calls[i]? = some c → c.Early → c.completed = none
  unanswered : ∀ i ∈ s.worker.held ++ s.queue, ∃ c, s.calls[i]? = some c ∧ c.completed = none
  order : (answered requests s.invoked ++ (s.worker.held ++ s.queue)).Sublist requests
  nodup : requests.Nodup

theorem hist_init : Hist [] init where
  count := by simp [init]
  known := by simp [init]
  late := by simp
  early := by simp [init]
  unanswered := by simp [init, Worker.held]
  order := by simp [init, answered, Worker.held]
  nodup := List.nodup_nil

theorem invocations_eq_zero {invoked : List Invocation} {i : Nat} :
    invocations invoked i = 0 ↔ ∀ v ∈ invoked, v.call ≠ i := by
  simp [invocations, List.countP_eq_zero]

theorem answered_concat (requests : List Nat) (invoked : List Invocation) (v : Invocation) :
    answered requests (invoked ++ [v]) =
      answered requests invoked ++ if v.call ∈ requests then [v.call] else [] := by
  by_cases h : v.call ∈ requests <;> simp [answered, h]

/-- A request that has no invocation yet does not count as answered. -/
theorem answered_push {requests : List Nat} {invoked : List Invocation} {i : Nat}
    (hi : invocations invoked i = 0) :
    answered (requests ++ [i]) invoked = answered requests invoked := by
  rw [answered, answered]
  apply List.filter_congr
  intro j hj
  obtain ⟨v, hv, rfl⟩ := List.mem_map.mp hj
  simp [invocations_eq_zero.mp hi v hv]

section

variable {requests : List Nat} {s : State}

/-- A pending request was pushed. -/
theorem Hist.mem_of_pending (h : Hist requests s) {i : Nat} (hi : i ∈ s.worker.held ++ s.queue) :
    i ∈ requests :=
  h.order.subset (List.mem_append_right _ hi)

/-- A call that has not pushed its request is not among the pushed ones. -/
theorem Hist.not_mem_of_early (h : Hist requests s) {i : Nat} {c : Call}
    (hc : s.calls[i]? = some c) (hearly : c.Early) : i ∉ requests := by
  intro hi
  obtain ⟨c', hc', hlate⟩ := h.late i hi
  rw [hc] at hc'
  exact hlate (Option.some.inj hc' ▸ hearly)

/-- The worker and the queue change what is pending, in order. -/
theorem Hist.of_pending (h : Hist requests s) {s' : State} (hcalls : s'.calls = s.calls)
    (hinvoked : s'.invoked = s.invoked)
    (hsub : (s'.worker.held ++ s'.queue).Sublist (s.worker.held ++ s.queue)) :
    Hist requests s' where
  count := by rw [hcalls, hinvoked]; exact h.count
  known := by rw [hcalls, hinvoked]; exact h.known
  late := by rw [hcalls]; exact h.late
  early := by rw [hcalls]; exact h.early
  unanswered := by
    intro i hi
    rw [hcalls]
    exact h.unanswered i (hsub.subset hi)
  order := by
    rw [hinvoked]
    exact ((List.Sublist.refl _).append hsub).trans h.order
  nodup := h.nodup

/-- A call goes on without an invocation of its callback. -/
theorem Hist.set_call (h : Hist requests s) {i : Nat} {c c' : Call} (hc : s.calls[i]? = some c)
    (hcompleted : c'.completed = c.completed) (hearly : c'.Early → c.Early) :
    Hist requests (s.setCall i c') where
  count := by
    intro j d hd
    rcases getElem?_set_cases hd with ⟨rfl, rfl⟩ | ⟨-, hd⟩
    · rw [hcompleted]
      exact h.count j c hc
    · exact h.count j d hd
  known := by
    intro v hv
    obtain ⟨d, hd⟩ := h.known v hv
    exact used_set hd i c'
  late := by
    intro j hj
    obtain ⟨d, hd, hlate⟩ := h.late j hj
    refine exists_getElem?_set hd hlate fun hdi => ?_
    rw [Option.some.inj (hdi.symm.trans hc)] at hlate
    exact fun he => hlate (hearly he)
  early := by
    intro j d hd he
    rcases getElem?_set_cases hd with ⟨rfl, rfl⟩ | ⟨-, hd⟩
    · rw [hcompleted]
      exact h.early j c hc (hearly he)
    · exact h.early j d hd he
  unanswered := by
    intro j hj
    obtain ⟨d, hd, hnone⟩ := h.unanswered j hj
    refine exists_getElem?_set hd hnone fun hdi => ?_
    rw [hcompleted, ← Option.some.inj (hdi.symm.trans hc)]
    exact hnone
  order := h.order
  nodup := h.nodup

/-- The callback of a call is invoked for the first time. -/
theorem Hist.record (h : Hist requests s) {i : Nat} {c : Call} (hc : s.calls[i]? = some c)
    (hnone : c.completed = none) {ok : Bool} {phase : Phase}
    (hlate : ¬ Call.Early { c with completed := some ok, phase }) {worker : Worker}
    (hsub : worker.held ++ s.queue ⊆ s.worker.held ++ s.queue)
    (hout : i ∉ worker.held ++ s.queue)
    (horder : (answered requests (s.record i c ok phase).invoked ++
      (worker.held ++ s.queue)).Sublist requests) :
    Hist requests { s.record i c ok phase with worker } where
  count := by
    intro j d hd
    simp only [State.record, invocations, List.countP_append, List.countP_singleton]
    rcases getElem?_set_cases hd with ⟨rfl, rfl⟩ | ⟨hne, hd⟩
    · have hcount := h.count j c hc
      rw [hnone] at hcount
      simp only [invocations] at hcount
      simp [hcount]
    · have hcount := h.count j d hd
      rw [invocations] at hcount
      simp [hcount, Ne.symm hne]
  known := by
    intro v hv
    rcases List.mem_append.mp hv with hv | hv
    · obtain ⟨d, hd⟩ := h.known v hv
      exact used_set hd i _
    · rw [List.mem_singleton.mp hv]
      exact used_set hc i _
  late := by
    intro j hj
    obtain ⟨d, hd, hdlate⟩ := h.late j hj
    exact exists_getElem?_set hd hdlate fun _ => hlate
  early := by
    intro j d hd he
    rcases getElem?_set_cases hd with ⟨rfl, rfl⟩ | ⟨-, hd⟩
    · exact absurd he hlate
    · exact h.early j d hd he
  unanswered := by
    intro j hj
    obtain ⟨d, hd, hdnone⟩ := h.unanswered j (hsub hj)
    have hne : j ≠ i := fun heq => hout (heq ▸ hj)
    exact ⟨d, (List.getElem?_set_ne (Ne.symm hne)).trans hd, hdnone⟩
  order := horder
  nodup := h.nodup

/-- A call pushes its request. -/
theorem Hist.push (h : Hist requests s) {i : Nat} {c : Call} (hc : s.calls[i]? = some c)
    (hphase : c.phase = .enqueuing) :
    Hist (requests ++ [i])
      { s.setCall i { c with phase := afterAsync c.kind } with queue := s.queue ++ [i] } := by
  have hearly : c.Early := .inr (.inr hphase)
  have hnone := h.early i c hc hearly
  have hzero : invocations s.invoked i = 0 := by
    have hcount := h.count i c hc
    rwa [hnone] at hcount
  have hset : Hist requests (s.setCall i { c with phase := afterAsync c.kind }) :=
    h.set_call hc rfl fun he => absurd he not_early_afterAsync
  have hself : (s.setCall i { c with phase := afterAsync c.kind }).calls[i]? =
      some { c with phase := afterAsync c.kind } :=
    List.getElem?_set_self (List.getElem?_eq_some_iff.mp hc).1
  refine ⟨hset.count, hset.known, ?_, hset.early, ?_, ?_, ?_⟩
  · intro j hj
    rcases List.mem_append.mp hj with hj | hj
    · exact hset.late j hj
    · rw [List.mem_singleton.mp hj]
      exact ⟨_, hself, not_early_afterAsync⟩
  · intro j hj
    rw [← List.append_assoc, List.mem_append] at hj
    rcases hj with hj | hj
    · exact hset.unanswered j hj
    · rw [List.mem_singleton.mp hj]
      exact ⟨_, hself, hnone⟩
  · show (answered (requests ++ [i]) s.invoked ++ (s.worker.held ++ (s.queue ++ [i]))).Sublist _
    rw [answered_push hzero, ← List.append_assoc s.worker.held, ← List.append_assoc]
    exact h.order.append_right [i]
  · rw [List.nodup_append]
    refine ⟨h.nodup, List.nodup_singleton i, ?_⟩
    intro j hj k hk
    rw [List.mem_singleton.mp hk]
    exact fun heq => h.not_mem_of_early hc hearly (heq ▸ hj)

/-- A new call. -/
theorem Hist.enter (h : Hist requests s) (kind : Kind) :
    Hist requests { s with
      calls := s.calls ++ [{ kind, phase := firstPhase kind, completed := none }] } where
  count := by
    intro i c hc
    rcases getElem?_concat.mp hc with hc | ⟨rfl, rfl⟩
    · exact h.count i c hc
    · apply invocations_eq_zero.mpr
      intro v hv
      obtain ⟨d, hd⟩ := h.known v hv
      exact Nat.ne_of_lt (List.getElem?_eq_some_iff.mp hd).1
  known := by
    intro v hv
    obtain ⟨d, hd⟩ := h.known v hv
    exact ⟨d, getElem?_concat.mpr (.inl hd)⟩
  late := by
    intro i hi
    obtain ⟨d, hd, hlate⟩ := h.late i hi
    exact ⟨d, getElem?_concat.mpr (.inl hd), hlate⟩
  early := by
    intro i c hc he
    rcases getElem?_concat.mp hc with hc | ⟨-, rfl⟩
    · exact h.early i c hc he
    · rfl
  unanswered := by
    intro i hi
    obtain ⟨d, hd, hnone⟩ := h.unanswered i hi
    exact ⟨d, getElem?_concat.mpr (.inl hd), hnone⟩
  order := h.order
  nodup := h.nodup

/-- The worker invokes the callback of the request it holds. -/
theorem Hist.invoke (h : Hist requests s) {i : Nat} {ok : Bool} {c : Call}
    (hworker : s.worker = .invoking i ok) (hc : s.calls[i]? = some c) :
    Hist requests { s.record i c ok c.phase with worker := .top } := by
  have hheld : s.worker.held = [i] := by rw [hworker]; rfl
  have hpending : i ∈ s.worker.held ++ s.queue := by simp [hheld]
  have hmem := h.mem_of_pending hpending
  obtain ⟨c', hc', hnone⟩ := h.unanswered i hpending
  obtain rfl : c' = c := Option.some.inj (hc'.symm.trans hc)
  obtain ⟨d, hd, hlate⟩ := h.late i hmem
  obtain rfl : c' = d := Option.some.inj (hc'.symm.trans hd)
  refine h.record hc hnone hlate (by simp [Worker.held]) ?_ ?_
  · -- the queue has no second copy of a request that the worker holds
    have hnodup := h.nodup.sublist h.order
    rw [hheld, List.nodup_append] at hnodup
    exact (List.nodup_cons.mp hnodup.2.1).1
  · have horder := h.order
    rw [hheld] at horder
    show (answered requests (s.invoked ++ [_]) ++ s.queue).Sublist requests
    rw [answered_concat, if_pos hmem, List.append_assoc]
    exact horder

end

theorem pushed_concat (labels : List Label) (l : Label) :
    pushed (labels ++ [l]) = pushed labels ++ (pushedBy l).toList := by
  cases h : pushedBy l <;> simp [pushed, h]

theorem hist_step {labels : List Label} {s s' : State} {l : Label} (h : Hist (pushed labels) s)
    (hstep : step s l = some s') : Hist (pushed (labels ++ [l])) s' := by
  rw [pushed_concat]
  have hsame : ∀ {s' : State}, Hist (pushed labels) s' → Hist (pushed labels ++ []) s' := by
    intro s' hs'
    rwa [List.append_nil]
  cases move_of_step hstep with
  | enter kind => exact hsame (h.enter kind)
  | @check i c hc hphase => exact hsame (h.set_call hc rfl fun _ => .inl hphase)
  | @accept i c hc hphase => exact hsame (h.set_call hc rfl fun _ => .inr (.inl hphase))
  | @refuse i c hc hphase =>
    have hearly : c.Early := .inr (.inl hphase)
    have hout := h.not_mem_of_early hc hearly
    refine hsame (h.record hc (h.early i c hc hearly) not_early_afterAsync (List.Subset.refl _)
      (fun hi => hout (h.mem_of_pending hi)) ?_)
    show (answered (pushed labels) (s.invoked ++ [_]) ++ (s.worker.held ++ s.queue)).Sublist _
    rw [answered_concat, if_neg hout, List.append_nil]
    exact h.order
  | enqueue hc hphase => exact h.push hc hphase
  | wake hc => exact hsame (h.set_call hc rfl (by simp [Call.Early]))
  | expire hc => exact hsame (h.set_call hc rfl (by simp [Call.Early]))
  | workerCheck hworker =>
    refine hsame (h.of_pending rfl rfl ?_)
    cases hr : s.running <;> simp [hworker, Worker.held]
  | take hworker hqueue =>
    refine hsame (h.of_pending rfl rfl ?_)
    simp [hworker, hqueue, Worker.held]
  | leave hworker | start _ hworker | stopJoin _ hworker =>
    refine hsame (h.of_pending rfl rfl ?_)
    simp [hworker, Worker.held]
  | process hworker =>
    refine hsame (h.of_pending rfl rfl ?_)
    simp [hworker, Worker.held]
  | invoke hworker hc => exact hsame (h.invoke hworker hc)
  | startAgain | stopAgain => exact hsame h
  | stopBegin | stopShutdown => exact hsame (h.of_pending rfl rfl (List.Sublist.refl _))
  | stopDrain =>
    refine hsame (h.of_pending rfl rfl ?_)
    simp

/-- Which calls have gone through the check of `queryAsync`. -/
structure Passed (labels : List Label) (s : State) : Prop where
  reached : ∀ (i : Nat) (c : Call), s.calls[i]? = some c →
    c.phase = .enqueuing ∨ c.phase = .waiting → PassedOn labels i
  ahead : ∀ (i : Nat) (c : Call), s.calls[i]? = some c →
    c.phase = .entered ∨ c.phase = .checked → ¬ PassedOn labels i
  known : ∀ i, PassedOn labels i → ∃ c, s.calls[i]? = some c
  pushed : ∀ i ∈ pushed labels, PassedOn labels i

theorem passed_init : Passed [] init where
  reached := by simp [init]
  ahead := by simp [init]
  known := by simp [PassedOn]
  pushed := by simp [QueryCallbacks.pushed]

theorem passedOn_concat {labels : List Label} {l : Label} {i : Nat} :
    PassedOn (labels ++ [l]) i ↔ PassedOn labels i ∨ l = .caller i .asyncCheck := by
  simp [PassedOn, eq_comm]

/-- A step that leaves the calls alone. -/
theorem Passed.frame {labels : List Label} {s s' : State} {l : Label} (h : Passed labels s)
    (hcalls : s'.calls = s.calls) (hpassed : ∀ i, l ≠ .caller i .asyncCheck)
    (hpushed : pushedBy l = none) : Passed (labels ++ [l]) s' := by
  have hsame : ∀ i, PassedOn (labels ++ [l]) i ↔ PassedOn labels i := by
    intro i
    simp [passedOn_concat, hpassed i]
  constructor
  · intro i c hc hphase
    rw [hcalls] at hc
    exact (hsame i).mpr (h.reached i c hc hphase)
  · intro i c hc hphase
    rw [hcalls] at hc
    exact fun hi => h.ahead i c hc hphase ((hsame i).mp hi)
  · intro i hi
    rw [hcalls]
    exact h.known i ((hsame i).mp hi)
  · intro i hi
    rw [pushed_concat, hpushed, Option.toList, List.append_nil] at hi
    exact (hsame i).mpr (h.pushed i hi)

/-- A step of the call `i`. -/
theorem Passed.set_call {labels : List Label} {s s' : State} {l : Label} (h : Passed labels s)
    {i : Nat} {c c' : Call} (hc : s.calls[i]? = some c) (hcalls : s'.calls = s.calls.set i c')
    (hother : ∀ j, l = .caller j .asyncCheck → j = i)
    (hreached : c'.phase = .enqueuing ∨ c'.phase = .waiting → PassedOn (labels ++ [l]) i)
    (hahead : c'.phase = .entered ∨ c'.phase = .checked → ¬ PassedOn (labels ++ [l]) i)
    (hpushed : ∀ j ∈ pushedBy l, PassedOn labels j) : Passed (labels ++ [l]) s' := by
  have hmono : ∀ {j}, PassedOn labels j → PassedOn (labels ++ [l]) j :=
    fun hj => passedOn_concat.mpr (.inl hj)
  constructor
  · intro j d hd hphase
    rw [hcalls] at hd
    rcases getElem?_set_cases hd with ⟨rfl, rfl⟩ | ⟨-, hd⟩
    · exact hreached hphase
    · exact hmono (h.reached j d hd hphase)
  · intro j d hd hphase hj
    rw [hcalls] at hd
    rcases getElem?_set_cases hd with ⟨rfl, rfl⟩ | ⟨hne, hd⟩
    · exact hahead hphase hj
    · rcases passedOn_concat.mp hj with hj | hl
      · exact h.ahead j d hd hphase hj
      · exact hne (hother j hl)
  · intro j hj
    rw [hcalls]
    rcases passedOn_concat.mp hj with hj | hl
    · obtain ⟨d, hd⟩ := h.known j hj
      exact used_set hd i c'
    · rw [hother j hl]
      exact used_set hc i c'
  · intro j hj
    rw [pushed_concat, List.mem_append] at hj
    rcases hj with hj | hj
    · exact hmono (h.pushed j hj)
    · exact hmono (hpushed j (Option.mem_toList.mp hj))

theorem passed_step {labels : List Label} {s s' : State} {l : Label} (h : Passed labels s)
    (hstep : step s l = some s') : Passed (labels ++ [l]) s' := by
  cases move_of_step hstep with
  | enter kind =>
    have hsame : ∀ i, PassedOn (labels ++ [.enter kind]) i ↔ PassedOn labels i := by
      intro i
      simp [passedOn_concat]
    constructor
    · intro i c hc hphase
      rcases getElem?_concat.mp hc with hc | ⟨-, rfl⟩
      · exact (hsame i).mpr (h.reached i c hc hphase)
      · cases kind <;> simp [firstPhase] at hphase
    · intro i c hc hphase hi
      rcases getElem?_concat.mp hc with hc | ⟨rfl, -⟩
      · exact h.ahead i c hc hphase ((hsame i).mp hi)
      · -- the index of a new call was not in use
        obtain ⟨d, hd⟩ := h.known _ ((hsame _).mp hi)
        exact Nat.lt_irrefl _ (List.getElem?_eq_some_iff.mp hd).1
    · intro i hi
      obtain ⟨d, hd⟩ := h.known i ((hsame i).mp hi)
      exact ⟨d, getElem?_concat.mpr (.inl hd)⟩
    · intro i hi
      rw [pushed_concat] at hi
      exact (hsame i).mpr (h.pushed i (by simpa [pushedBy] using hi))
  | @check i c hc hphase =>
    refine h.set_call hc rfl (by simp) ?_ ?_ (by simp [pushedBy])
    · cases s.running <;> simp
    · intro _ hi
      exact h.ahead i c hc (.inl hphase) (by simpa [passedOn_concat] using hi)
  | accept hc =>
    exact h.set_call hc rfl (by simp) (by simp [passedOn_concat]) (by simp) (by simp [pushedBy])
  | @refuse i c hc =>
    refine h.set_call hc rfl (by simp) (by simp [passedOn_concat]) ?_ (by simp [pushedBy])
    cases hk : c.kind <;> simp [afterAsync]
  | @enqueue i c hc hphase =>
    have hi := h.reached i c hc (.inl hphase)
    refine h.set_call hc rfl (by simp) (fun _ => passedOn_concat.mpr (.inl hi)) ?_ ?_
    · cases hk : c.kind <;> simp [afterAsync]
    · intro j hj
      rw [← Option.some.inj hj]
      exact hi
  | wake hc => exact h.set_call hc rfl (by simp) (by simp) (by simp) (by simp [pushedBy])
  | expire hc => exact h.set_call hc rfl (by simp) (by simp) (by simp) (by simp [pushedBy])
  | @invoke i ok c hworker hc =>
    refine h.set_call hc rfl (by simp) ?_ ?_ (by simp [pushedBy])
    · exact fun hphase => passedOn_concat.mpr (.inl (h.reached i c hc hphase))
    · intro hphase hi
      exact h.ahead i c hc hphase (by simpa [passedOn_concat] using hi)
  | workerCheck | take | leave | process => exact h.frame rfl (by simp) rfl
  | startAgain | start | stopBegin | stopAgain | stopShutdown | stopJoin | stopDrain =>
    exact h.frame rfl (by simp) rfl

/-- How far `stop` is. -/
structure Control (s : State) : Prop where
  idle : s.Stopped → s.worker = .absent
  joining : s.stopping = .joining → s.running = false
  draining : s.stopping = .draining → s.running = false ∧ s.worker = .absent

theorem control_init : Control init := ⟨fun _ => rfl, by simp [init], by simp [init]⟩

theorem control_step {s s' : State} {l : Label} (h : Control s) (hstep : step s l = some s') :
    Control s' := by
  -- a worker that takes a step is there
  have hthere : ∀ {s' : State}, s.worker ≠ .absent → s'.running = s.running →
      s'.stopping = s.stopping → Control s' := by
    intro s' hworker hrunning hstopping
    constructor
    · intro hs
      rw [State.Stopped, hrunning, hstopping] at hs
      exact absurd (h.idle hs) hworker
    · rw [hrunning, hstopping]
      exact h.joining
    · rw [hstopping]
      exact fun hs => absurd (h.draining hs).2 hworker
  cases move_of_step hstep with
  | enter | check | accept | refuse | enqueue | wake | expire =>
    exact ⟨h.idle, h.joining, h.draining⟩
  | workerCheck hworker | take hworker | leave hworker =>
    exact hthere (by simp [hworker]) rfl rfl
  | process hworker | invoke hworker => exact hthere (by simp [hworker]) rfl rfl
  | startAgain | stopAgain => exact h
  | start _ _ hstopping => exact ⟨by simp [State.Stopped], by simp [hstopping], by simp [hstopping]⟩
  | stopBegin => exact ⟨by simp [State.Stopped], by simp, by simp⟩
  | stopShutdown => exact ⟨by simp [State.Stopped], by simp, by simp⟩
  | stopJoin hstopping =>
    exact ⟨by simp [State.Stopped], by simp, fun _ => ⟨h.joining hstopping, rfl⟩⟩
  | stopDrain hstopping => exact ⟨fun _ => (h.draining hstopping).2, by simp, by simp⟩

/-- What every run keeps. -/
structure Ledger (labels : List Label) (s : State) : Prop where
  hist : Hist (pushed labels) s
  passed : Passed labels s
  control : Control s

theorem ledger_step {labels : List Label} {s s' : State} {l : Label} (h : Ledger labels s)
    (hstep : step s l = some s') : Ledger (labels ++ [l]) s' :=
  ⟨hist_step h.hist hstep, passed_step h.passed hstep, control_step h.control hstep⟩

theorem ledger_of_runs {G : State → Label → Prop} {labels : List Label} {s : State}
    (hrun : Runs step G init labels s) : Ledger labels s :=
  hrun.history (fun _ _ _ _ h _ hstep => ledger_step h hstep)
    ⟨hist_init, passed_init, control_init⟩

/-! ## What is kept while nothing is lost -/

/-- The guard: `stop` finds the queue empty when it clears it, and no call
pushes its request after `stop` has returned. -/
def NothingLost (s : State) (l : Label) : Prop :=
  (l = .control .stopDrain → s.queue = []) ∧ ∀ i, l = .caller i .enqueue → ¬ s.Stopped

/-- A request that was passed on and has no answer is pending, and a stopped
client has an empty queue. -/
structure Kept (labels : List Label) (s : State) : Prop where
  pending : ∀ (i : Nat) (c : Call), s.calls[i]? = some c → PassedOn labels i →
    c.phase ≠ .enqueuing → c.completed = none → i ∈ s.worker.held ++ s.queue
  empty : s.Stopped → s.queue = []

section

variable {labels : List Label} {s s' : State} {l : Label}

/-- A step that leaves the calls alone and loses no pending request. -/
theorem Kept.frame (h : Kept labels s) (hcalls : s'.calls = s.calls)
    (hpassed : ∀ i, l ≠ .caller i .asyncCheck)
    (hsub : s.worker.held ++ s.queue ⊆ s'.worker.held ++ s'.queue)
    (hempty : s'.Stopped → s'.queue = []) : Kept (labels ++ [l]) s' where
  pending := by
    intro i c hc hi hphase hnone
    rw [hcalls] at hc
    rcases passedOn_concat.mp hi with hi | hl
    · exact hsub (h.pending i c hc hi hphase hnone)
    · exact absurd hl (hpassed i)
  empty := hempty

/-- A step of the call `i` that loses no other pending request. -/
theorem Kept.set_call (h : Kept labels s) {i : Nat} {c' : Call}
    (hcalls : s'.calls = s.calls.set i c') (hother : ∀ j, l = .caller j .asyncCheck → j = i)
    (hsub : ∀ j, j ≠ i → j ∈ s.worker.held ++ s.queue → j ∈ s'.worker.held ++ s'.queue)
    (hself : PassedOn (labels ++ [l]) i → c'.phase ≠ .enqueuing → c'.completed = none →
      i ∈ s'.worker.held ++ s'.queue)
    (hempty : s'.Stopped → s'.queue = []) : Kept (labels ++ [l]) s' where
  pending := by
    intro j d hd hj hphase hnone
    rw [hcalls] at hd
    rcases getElem?_set_cases hd with ⟨rfl, rfl⟩ | ⟨hne, hd⟩
    · exact hself hj hphase hnone
    · rcases passedOn_concat.mp hj with hj | hl
      · exact hsub j hne (h.pending j d hd hj hphase hnone)
      · exact absurd (hother j hl) hne
  empty := hempty

theorem kept_step (hledger : Ledger labels s) (h : Kept labels s) (hguard : NothingLost s l)
    (hstep : step s l = some s') : Kept (labels ++ [l]) s' := by
  cases move_of_step hstep with
  | enter kind =>
    refine ⟨?_, h.empty⟩
    intro i c hc hi hphase hnone
    have hi : PassedOn labels i := by simpa [passedOn_concat] using hi
    rcases getElem?_concat.mp hc with hc | ⟨rfl, -⟩
    · exact h.pending i c hc hi hphase hnone
    · obtain ⟨d, hd⟩ := hledger.passed.known _ hi
      exact absurd (List.getElem?_eq_some_iff.mp hd).1 (Nat.lt_irrefl _)
  | @check i c hc hphase =>
    refine h.set_call rfl (by simp) (fun _ _ hj => hj) ?_ h.empty
    intro hi
    exact absurd (by simpa [passedOn_concat] using hi)
      (hledger.passed.ahead i c hc (.inl hphase))
  | accept => exact h.set_call rfl (by simp) (fun _ _ hj => hj) (by simp) h.empty
  | refuse => exact h.set_call rfl (by simp) (fun _ _ hj => hj) (by simp) h.empty
  | @enqueue i c hc hphase =>
    refine h.set_call rfl (by simp) ?_ ?_ fun hs => absurd hs (hguard.2 i rfl)
    · intro j _ hj
      show j ∈ s.worker.held ++ (s.queue ++ [i])
      rw [← List.append_assoc]
      exact List.mem_append_left [i] hj
    · intro _ _ _
      simp
  | wake _ _ hcompleted =>
    exact h.set_call rfl (by simp) (fun _ _ hj => hj) (by simp [hcompleted]) h.empty
  | @expire i c hc hphase hcompleted =>
    refine h.set_call rfl (by simp) (fun _ _ hj => hj) ?_ h.empty
    intro hi _ _
    exact h.pending i c hc (by simpa [passedOn_concat] using hi) (by simp [hphase]) hcompleted
  | workerCheck hworker =>
    refine h.frame rfl (by simp) ?_ h.empty
    cases hr : s.running <;> simp [hworker, Worker.held]
  | take hworker hqueue =>
    refine h.frame rfl (by simp) ?_ ?_
    · simp [hworker, hqueue, Worker.held]
    · intro hs
      exact absurd (h.empty hs) (by simp [hqueue])
  | leave hworker | process hworker =>
    refine h.frame rfl (by simp) ?_ h.empty
    simp [hworker, Worker.held]
  | @invoke i ok c hworker hc =>
    refine h.set_call rfl (by simp) ?_ (by simp) h.empty
    intro j hne hj
    show j ∈ s.queue
    simpa [hworker, Worker.held, hne] using hj
  | startAgain => exact h.frame rfl (by simp) (List.Subset.refl _) h.empty
  | stopAgain => exact h.frame rfl (by simp) (List.Subset.refl _) h.empty
  | start _ hworker =>
    refine h.frame rfl (by simp) ?_ (by simp [State.Stopped])
    simp [hworker, Worker.held]
  | stopBegin => exact h.frame rfl (by simp) (List.Subset.refl _) (by simp [State.Stopped])
  | stopShutdown => exact h.frame rfl (by simp) (List.Subset.refl _) (by simp [State.Stopped])
  | stopJoin _ hworker =>
    refine h.frame rfl (by simp) ?_ (by simp [State.Stopped])
    simp [hworker, Worker.held]
  | stopDrain =>
    refine h.frame rfl (by simp) ?_ fun _ => rfl
    rw [hguard.1 rfl]
    exact List.Subset.refl _

end

/-! ## Delivery -/

/-- Every request whose `queryAsync` call is through has had its callback
invoked once, and nobody waits for a callback that does not come. -/
structure Settled (labels : List Label) (s : State) : Prop where
  answered : ∀ (i : Nat) (c : Call), s.calls[i]? = some c → PassedOn labels i →
    c.phase ≠ .enqueuing → invocations s.invoked i = 1
  awake : ∀ c ∈ s.calls, c.phase = .waiting → c.completed ≠ none

theorem settled_of_kept {labels : List Label} {s : State} (hledger : Ledger labels s)
    (h : Kept labels s) (hstopped : s.Stopped) : Settled labels s := by
  have hcompleted : ∀ (i : Nat) (c : Call), s.calls[i]? = some c → PassedOn labels i →
      c.phase ≠ .enqueuing → c.completed ≠ none := by
    intro i c hc hi hphase hnone
    have hpending := h.pending i c hc hi hphase hnone
    rw [hledger.control.idle hstopped, h.empty hstopped] at hpending
    exact absurd hpending (by simp [Worker.held])
  constructor
  · intro i c hc hi hphase
    rw [hledger.hist.count i c hc, if_pos]
    exact Option.isSome_iff_ne_none.mpr (hcompleted i c hc hi hphase)
  · intro c hc hphase
    obtain ⟨i, hi⟩ := List.mem_iff_getElem?.mp hc
    exact hcompleted i c hi (hledger.passed.reached i c hi (.inr hphase)) (by simp [hphase])

/-- With a pending request that nobody will answer, not everything is
settled. -/
theorem not_settled_of_pending {labels labels' : List Label} {s s' : State}
    (hledger : Ledger labels s) (hcalls : s'.calls = s.calls) (hinvoked : s'.invoked = s.invoked)
    (hmono : ∀ i, PassedOn labels i → PassedOn labels' i) {i : Nat}
    (hi : i ∈ s.worker.held ++ s.queue) : ¬ Settled labels' s' := by
  intro hsettled
  obtain ⟨c, hc, hnone⟩ := hledger.hist.unanswered i hi
  have hmem := hledger.hist.mem_of_pending hi
  have hphase : c.phase ≠ .enqueuing := by
    intro hphase
    exact hledger.hist.not_mem_of_early hc (.inr (.inr hphase)) hmem
  have hone := hsettled.answered i c (hcalls ▸ hc) (hmono i (hledger.passed.pushed i hmem)) hphase
  rw [hinvoked, hledger.hist.count i c hc, hnone] at hone
  exact absurd hone (by decide)

/-- A step after which everything is settled has lost nothing. -/
theorem nothingLost_of_settled {labels : List Label} {s s' : State} {l : Label}
    (hledger : Ledger labels s) (hstep : step s l = some s')
    (hsettled : s'.Stopped → Settled (labels ++ [l]) s') : NothingLost s l := by
  constructor
  · intro hl
    subst hl
    cases move_of_step hstep with
    | stopDrain hstopping =>
      have hnow := hsettled ⟨(hledger.control.draining hstopping).1, rfl⟩
      apply List.eq_nil_iff_forall_not_mem.mpr
      intro i hi
      exact absurd hnow (not_settled_of_pending hledger rfl rfl
        (fun _ hj => List.mem_append_left _ hj) (List.mem_append_right _ hi))
  · intro i hl hstopped
    subst hl
    have hnext := ledger_step hledger hstep
    cases move_of_step hstep with
    | enqueue hc hphase =>
      exact not_settled_of_pending hnext rfl rfl (fun _ hj => hj)
        (List.mem_append_right _ (List.mem_append_right _ (List.mem_singleton_self i)))
        (hsettled hstopped)

/-- A run after which everything is settled, whenever `stop` has returned, has
lost nothing. -/
theorem runs_nothingLost {labels : List Label} {s : State} (hrun : Runs step anyStep init labels s)
    (hsettled : ∀ before after t, before ++ after = labels → Runs step anyStep init before t →
      t.Stopped → Settled before t) : Runs step NothingLost init labels s := by
  -- along the run, for as long as it is a first part of the given one
  have hall : Runs step anyStep init labels s ∧
      ∀ after, labels ++ after = labels → Runs step NothingLost init labels s := by
    refine hrun.history (I := fun before t => Runs step anyStep init before t ∧
      ∀ after, before ++ after = labels → Runs step NothingLost init before t) ?_ ?_
    · intro before u l t h _ hstep
      have hnext : Runs step anyStep init (before ++ [l]) t :=
        Runs.append_iff.mpr ⟨u, h.1, .cons trivial hstep (.nil t)⟩
      refine ⟨hnext, fun after hsplit => ?_⟩
      have hguard := nothingLost_of_settled (ledger_of_runs h.1) hstep
        (hsettled (before ++ [l]) after t hsplit hnext)
      have hfirst := h.2 (l :: after) (by simpa using hsplit)
      exact Runs.append_iff.mpr ⟨u, hfirst, .cons hguard hstep (.nil t)⟩
    · exact ⟨.nil init, fun _ _ => .nil init⟩
  exact hall.2 [] (List.append_nil labels)

/-- Delivery of requests.  In every run a callback is invoked at most once, and
the callbacks of pushed requests are invoked in the order of the pushes.
Whenever `stop` has returned every request is settled if and only if `stop`
always finds the queue empty and no request is pushed after it. -/
theorem requests_delivered_iff (labels : List Label) (s : State)
    (hrun : Runs step anyStep init labels s) :
    (∀ i, invocations s.invoked i ≤ 1) ∧
    (pushed labels).Nodup ∧ (answered (pushed labels) s.invoked).Sublist (pushed labels) ∧
    ((∀ before after t, before ++ after = labels → Runs step anyStep init before t →
        t.Stopped → Settled before t) ↔
      Runs step NothingLost init labels s) := by
  have hledger := ledger_of_runs hrun
  refine ⟨?_, hledger.hist.nodup, (List.sublist_append_left _ _).trans hledger.hist.order, ?_⟩
  · intro i
    by_cases hi : invocations s.invoked i = 0
    · omega
    · have hpos : 0 < s.invoked.countP (·.call == i) := Nat.pos_of_ne_zero hi
      obtain ⟨v, hv, hcall⟩ := List.countP_pos_iff.mp hpos
      obtain ⟨c, hc⟩ := hledger.hist.known v hv
      rw [beq_iff_eq] at hcall
      rw [hledger.hist.count i c (hcall ▸ hc)]
      split <;> omega
  constructor
  · exact runs_nothingLost hrun
  · intro hkept before after t hsplit hbefore hstopped
    rw [← hsplit, Runs.append_iff] at hkept
    obtain ⟨u, hu, -⟩ := hkept
    obtain rfl := hbefore.unique hu
    have hboth : Ledger before t ∧ Kept before t := by
      refine hu.history (I := fun labels s => Ledger labels s ∧ Kept labels s) ?_ ?_
      · intro as s a s' h hguard hstep
        exact ⟨ledger_step h.1 hstep, kept_step h.1 h.2 hguard hstep⟩
      · exact ⟨⟨hist_init, passed_init, control_init⟩, by simp [init], by simp [init]⟩
    exact settled_of_kept hboth.1 hboth.2 hstopped

/-- A request is answered, a call that comes after `stop` is refused, and both
have had their callbacks. -/
def answeredAndRefused : List Label :=
  [.control .start, .enter .queryAsync, .caller 0 .asyncCheck, .caller 0 .enqueue, .worker .check,
    .worker .take, .worker (.process true), .worker .invoke, .control .stopBegin,
    .control .stopShutdown, .worker .check, .control .stopJoin, .control .stopDrain,
    .enter .queryAsync, .caller 1 .asyncCheck]

theorem requests_delivered_iff_refused :
    ∃ s, Runs step anyStep init answeredAndRefused s ∧
      s.invoked = [⟨0, true, true⟩, ⟨1, false, false⟩] ∧
      ((∀ before after t, before ++ after = answeredAndRefused →
          Runs step anyStep init before t → t.Stopped → Settled before t) ↔
        Runs step NothingLost init answeredAndRefused s) := by
  have hexec : (exec step init answeredAndRefused).map State.invoked =
      some [⟨0, true, true⟩, ⟨1, false, false⟩] := by decide
  obtain ⟨s, hs, hinvoked⟩ := Option.map_eq_some_iff.mp hexec
  have hrun : Runs step anyStep init answeredAndRefused s :=
    runs_of_exec (fun _ _ _ => trivial) hs
  exact ⟨s, hrun, hinvoked, (requests_delivered_iff _ _ hrun).2.2.2⟩

/-- `stop` comes while a request is in the queue.  The worker leaves at its loop
condition, the request is dropped, and the call waits for ever. -/
theorem queued_request_is_dropped :
    ∃ s, Runs step anyStep init
        [.control .start, .enter (.query false), .caller 0 .check, .caller 0 .asyncCheck,
          .caller 0 .enqueue, .control .stopBegin, .control .stopShutdown, .worker .check,
          .control .stopJoin, .control .stopDrain] s ∧
      s.Stopped ∧ s.queue = [] ∧ s.worker = .absent ∧ s.invoked = [] ∧
      s.calls = [⟨.query false, .waiting, none⟩] := by
  have hexec : exec step init
      [.control .start, .enter (.query false), .caller 0 .check, .caller 0 .asyncCheck,
        .caller 0 .enqueue, .control .stopBegin, .control .stopShutdown, .worker .check,
        .control .stopJoin, .control .stopDrain] =
      some { running := false, queue := [], worker := .absent, stopping := .no
             calls := [⟨.query false, .waiting, none⟩], invoked := [] } := by decide
  exact ⟨_, runs_of_exec (fun _ _ _ => trivial) hexec, ⟨rfl, rfl⟩, rfl, rfl, rfl, rfl⟩

end OracleMachine.Node.QueryCallbacks
