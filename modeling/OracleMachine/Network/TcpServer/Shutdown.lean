import OracleMachine.Lib.Progress
import OracleMachine.Network.TcpServer.Bookkeeping

/-!
# Shutdown of the TCP server

`TcpServer::stop` waits for the accept thread and for every client thread.  This
module shows that it returns, under two assumptions on what it waits for: a
session handler returns when its descriptor was shut down, and the system calls
of the accept thread return, `poll` after its timeout and `accept` after `poll`
has found a connection.

* `Live` is what `stop` and the accept thread need in order to go on, and
  `workLeft` is a rank that every step of the server lowers once `stop` has begun.
* `shutAfter` notes which open descriptors were shut down.  `Covered` says that
  `stop` has reached every client that is still in its handler by the time it
  waits for the client threads.
* `stop_completes` puts both together: as long as `stop` has not returned, a
  thread of the server can make a step, and this is the return of a handler only
  for a descriptor that was shut down; and there are at most `workLeft` such
  steps.

In particular the accept thread, for which `stop` waits before it shuts anything
down, does not wait for a handler: its cleanup joins threads that have marked
themselves, and these need nobody.
-/

namespace OracleMachine.Network.TcpServer

open Lib.Entries Lib.Transition

variable {s s' : State}

/-! ## What keeps the threads going -/

/-- The request to stop stays while `stop` is under way, the accept thread is
there until `stop` has joined it, and `stop` does not run past the handles. -/
structure Live (s : State) : Prop where
  requested : s.stopping ≠ .no → s.stopRequested = true
  accepting : s.running = true → s.stopping.pastAccept = false → s.acceptor ≠ .absent
  visited : s.stopping.visited ≤ s.clientThreads.length

theorem live_init : Live init where
  requested h := absurd rfl h
  accepting h := absurd h (by decide)
  visited := Nat.le_refl 0

/-- A step of the accept thread, which `stop` has not joined. -/
theorem Live.of_accepting (h : Live s) (hinv : Inv s) (hacceptor : s.acceptor ≠ .absent)
    (hacceptor' : s'.acceptor ≠ .absent) (hstopping : s'.stopping = s.stopping)
    (hrequested : s'.stopRequested = s.stopRequested) : Live s' where
  requested := by rw [hstopping, hrequested]; exact h.requested
  accepting _ _ := hacceptor'
  visited := by
    rw [hstopping, visited_eq_zero (hinv.phases.accepting hacceptor).2]
    exact Nat.zero_le _

/-- A step beside `stop` and the accept thread. -/
theorem Live.frame (h : Live s) (hrunning : s'.running = s.running)
    (hstopping : s'.stopping = s.stopping) (hrequested : s'.stopRequested = s.stopRequested)
    (hacceptor : s'.acceptor = s.acceptor)
    (hthreads : s'.clientThreads.length = s.clientThreads.length) : Live s' where
  requested := by rw [hstopping, hrequested]; exact h.requested
  accepting := by rw [hrunning, hstopping, hacceptor]; exact h.accepting
  visited := by rw [hstopping, hthreads]; exact h.visited

/-- `stop` goes on after it has joined the accept thread. -/
theorem live_of_past (hrequested : s.stopRequested = true) (hpast : s.stopping.pastAccept = true)
    (hvisited : s.stopping.visited ≤ s.clientThreads.length) : Live s where
  requested _ := hrequested
  accepting _ hnot := absurd (hpast.symm.trans hnot) (by decide)
  visited := hvisited

theorem live_acceptMove {a : AcceptStep} (h : Live s) (hinv : Inv s) (hmove : AcceptMove s a s') :
    Live s' := by
  cases hmove with
  | check hacceptor =>
    refine h.of_accepting hinv (by simp [hacceptor]) ?_ rfl rfl
    cases s.stopRequested <;> simp
  | poll hacceptor =>
    refine h.of_accepting hinv (by simp [hacceptor]) ?_ rfl rfl
    split <;> simp
  | failed hacceptor =>
    refine h.of_accepting hinv (by simp [hacceptor]) ?_ rfl rfl
    cases s.stopRequested <;> simp
  | accept hacceptor | allow hacceptor | reject hacceptor | push hacceptor | collect hacceptor
  | join hacceptor | spawn hacceptor =>
    exact h.of_accepting hinv (by simp [hacceptor]) (by simp) rfl rfl

theorem live_clientMove {i : Nat} {c : Client} {a : ClientStep} (h : Live s)
    (hmove : ClientMove s i c a s') : Live s' := by
  cases hmove <;> exact h.frame rfl rfl rfl rfl rfl

theorem live_stopMove {a : StopStep} (h : Live s) (hmove : StopMove s a s') : Live s' := by
  have hrequested : s.stopping ≠ .no → s.stopRequested = true := h.requested
  cases hmove with
  | request hstopping hrunning =>
    refine ⟨fun _ => rfl, fun _ _ => ?_, Nat.zero_le _⟩
    exact h.accepting hrunning (by rw [hstopping]; rfl)
  | requestAgain => exact h
  | closeServer hstopping | noServer hstopping =>
    refine ⟨fun _ => hrequested (by simp [hstopping]), fun hrunning _ => ?_, Nat.zero_le _⟩
    exact h.accepting hrunning (by rw [hstopping]; rfl)
  | joinAccept hstopping | lock hstopping | shutdown hstopping | unlock hstopping
  | clearThreads hstopping | clearFDs hstopping =>
    exact live_of_past (hrequested (by simp [hstopping])) rfl (Nat.zero_le _)
  | @join next t clients hstopping hthread =>
    refine live_of_past (hrequested (by simp [hstopping])) rfl ?_
    show next + 1 ≤ (s.clientThreads.set next { t with joinable := false }).length
    rw [List.length_set]
    exact (List.getElem?_eq_some_iff.mp hthread).1
  | finish hstopping =>
    exact ⟨fun hno => absurd rfl hno, fun hrunning => absurd hrunning (by simp), Nat.zero_le _⟩

theorem live_step {l : Label} (h : Live s) (hinv : Inv s) (hstep : step s l = some s') :
    Live s' := by
  cases move_of_step hstep with
  | startAgain | startFails => exact h
  | start hrunning =>
    have hno : s.stopping = .no := by
      cases hstopping : s.stopping with
      | no => rfl
      | _ =>
        have hrunning' := hinv.phases.running (by simp [hstopping])
        rw [hrunning] at hrunning'
        exact absurd hrunning' (by decide)
    refine ⟨fun hstop => absurd hno hstop, fun _ _ => by simp, ?_⟩
    exact h.visited
  | acceptor hmove => exact live_acceptMove h hinv hmove
  | client _ hmove => exact live_clientMove h hmove
  | stop hmove => exact live_stopMove h hmove
  | openElsewhere | closeElsewhere => exact h.frame rfl rfl rfl rfl rfl

/-! ## The work that is left -/

/-- The steps of the accept thread up to its end, with those of the client thread
that it may still start and of its entries in the collections.  `threads` is the
number of handles, any of which the cleanup may have to join. -/
def Acceptor.work (threads : Nat) : Acceptor → Nat
  | .absent | .exited => 0
  | .top => 1
  | .joining _ threadsToJoin => threadsToJoin.length + 7
  | .listed _ => threads + 8
  | .admitted _ => threads + 10
  | .accepted _ => threads + 11
  | .accepting => threads + 12
  | .polling => threads + 13

/-- The steps of a client thread up to its end. -/
def ClientPhase.work : ClientPhase → Nat
  | .handling => 4
  | .returned => 3
  | .marked => 2
  | .removed => 1
  | .ended => 0

/-- The steps of `stop` up to its end. -/
def Stopping.work (threads active : Nat) : Stopping → Nat
  | .no => 0
  | .requested => threads + active + 8
  | .closed => threads + active + 7
  | .acceptJoined => threads + active + 6
  | .shuttingDown fds => threads + fds.length + 5
  | .joining next => threads - next + 4
  | .threadsCleared => 3
  | .fdsCleared => 2

/-- The steps that the threads of the server can make until `stop` returns. -/
def workLeft (s : State) : Nat :=
  s.acceptor.work s.clientThreads.length + (s.clients.map (·.phase.work)).sum +
    s.stopping.work s.clientThreads.length s.activeClientFDs.length

/-- The label is one of a thread of the server: the accept thread, a client
thread, or the one that called `stop`. -/
def Label.isServer : Label → Bool
  | .acceptor _ | .client _ _ | .stop _ => true
  | .start _ | .openElsewhere _ | .closeElsewhere _ => false

/-- A run as `assumed` says, up to the return of `stop`. -/
def stopGoesOn (s : State) (l : Label) : Prop := assumed s l = true ∧ l ≠ .stop .finish

/-- A join changes no phase. -/
theorem map_work_join {clients clients' : List Client} {t : Thread}
    (h : join clients t = some clients') :
    clients'.map (·.phase.work) = clients.map (·.phase.work) := by
  apply List.ext_getElem?
  intro j
  rw [List.getElem?_map, List.getElem?_map, (join_spec h).1 j, Option.map_map]
  rfl

theorem length_collectFinished (clients : List Client) (ts : List Thread) (ids : Finset Nat) :
    (collectFinished clients ts ids).1.length + (collectFinished clients ts ids).2.1.length =
      ts.length := by
  rw [← List.length_append]
  exact (collectFinished_spec clients ts ids).1.length_eq

/-- Before `stop` has joined the accept thread, it has all handles and all active
descriptors before it. -/
theorem work_before_accept {p : Stopping} (hno : p ≠ .no) (hpast : p.pastAccept = false) :
    ∃ k, ∀ threads active, p.work threads active = threads + active + k := by
  cases p with
  | no => exact absurd rfl hno
  | requested => exact ⟨8, fun _ _ => rfl⟩
  | closed => exact ⟨7, fun _ _ => rfl⟩
  | acceptJoined | shuttingDown | joining | threadsCleared | fdsCleared =>
    exact absurd hpast (by simp [Stopping.pastAccept])

theorem workLeft_acceptMove {a : AcceptStep} (h : Live s) (hno : s.stopping ≠ .no)
    (hpast : s.stopping.pastAccept = false) (hmove : AcceptMove s a s') :
    workLeft s' < workLeft s := by
  obtain ⟨k, hwork⟩ := work_before_accept hno hpast
  have hrequested := h.requested hno
  cases hmove with
  | check hacceptor | failed hacceptor =>
    simp only [workLeft, hacceptor, hrequested, Acceptor.work, ↓reduceIte]
    omega
  | @poll ready hacceptor =>
    cases ready <;> simp only [workLeft, hacceptor, Acceptor.work, Bool.false_eq_true, ↓reduceIte]
      <;> omega
  | accept hacceptor | allow hacceptor | reject hacceptor =>
    simp only [workLeft, hacceptor, Acceptor.work]
    omega
  | push hacceptor =>
    simp only [workLeft, hacceptor, Acceptor.work, hwork, List.length_append, List.length_singleton]
    omega
  | collect hacceptor =>
    have hlength := length_collectFinished s.clients s.clientThreads s.finishedThreadIds
    simp only [workLeft, hacceptor, Acceptor.work, hwork]
    omega
  | join hacceptor hjoin =>
    simp only [workLeft, hacceptor, Acceptor.work, map_work_join hjoin, List.length_cons]
    omega
  | spawn hacceptor =>
    simp only [workLeft, hacceptor, Acceptor.work, hwork, List.map_append, List.sum_append,
      List.length_append, List.length_singleton, List.length_nil, List.map_cons, List.map_nil,
      List.sum_cons, List.sum_nil, ClientPhase.work]
    omega

/-- A client thread goes on, and the active list does not grow. -/
theorem workLeft_of_client {i : Nat} {c c' : Client} (hc : s.clients[i]? = some c)
    (hphase : c'.phase.work < c.phase.work) (hclients : s'.clients = s.clients.set i c')
    (hacceptor : s'.acceptor = s.acceptor) (hthreads : s'.clientThreads = s.clientThreads)
    (hstopping : s'.stopping = s.stopping)
    (hactive : s'.activeClientFDs.length ≤ s.activeClientFDs.length) :
    workLeft s' < workLeft s := by
  have hsum := sum_map_set hc (·.phase.work) c'
  have hstop : s.stopping.work s.clientThreads.length s'.activeClientFDs.length ≤
      s.stopping.work s.clientThreads.length s.activeClientFDs.length := by
    cases s.stopping <;> simp only [Stopping.work] <;> omega
  simp only [workLeft, hacceptor, hthreads, hstopping, hclients]
  omega

theorem workLeft_clientMove {i : Nat} {c : Client} {a : ClientStep} (hc : s.clients[i]? = some c)
    (hmove : ClientMove s i c a s') (hclose : a ≠ .closeSession) : workLeft s' < workLeft s := by
  cases hmove with
  | closeSession => exact absurd rfl hclose
  | handlerReturns hphase | mark hphase | destroySession hphase =>
    exact workLeft_of_client hc (by rw [hphase]; exact Nat.lt_succ_self _) rfl rfl rfl
      rfl (Nat.le_refl _)
  | removeClientFD hphase =>
    exact workLeft_of_client hc (by rw [hphase]; exact Nat.lt_succ_self _) rfl rfl rfl
      rfl List.length_erase_le

theorem workLeft_stopMove {a : StopStep} (hinv : Inv s) (hno : s.stopping ≠ .no)
    (hmove : StopMove s a s') (hfinish : a ≠ .finish) : workLeft s' < workLeft s := by
  cases hmove with
  | request hstopping | requestAgain hstopping => exact absurd hstopping hno
  | finish => exact absurd rfl hfinish
  | closeServer hstopping | noServer hstopping | lock hstopping | unlock hstopping
  | clearFDs hstopping =>
    simp only [workLeft, hstopping, Stopping.work, List.length_nil]
    omega
  | joinAccept hstopping hacceptor =>
    simp only [workLeft, hstopping, hacceptor, Stopping.work, Acceptor.work]
    omega
  | shutdown hstopping =>
    simp only [workLeft, hstopping, Stopping.work, List.length_cons]
    omega
  | join hstopping hthread hjoin =>
    have hnext := (List.getElem?_eq_some_iff.mp hthread).1
    simp only [workLeft, hstopping, Stopping.work, map_work_join hjoin, List.length_set]
    omega
  | clearThreads hstopping =>
    have hacceptor := (hinv.phases.past (by rw [hstopping]; rfl)).2
    simp only [workLeft, hstopping, hacceptor, Stopping.work, Acceptor.work]
    omega

/-- `stop` is under way. -/
structure Stops (s : State) : Prop where
  inv : Inv s
  live : Live s
  begun : s.stopping ≠ .no

theorem stops_step {l : Label} (h : Stops s) (hguard : stopGoesOn s l)
    (hstep : step s l = some s') : Stops s' := by
  refine ⟨inv_step h.inv hguard.1 hstep, live_step h.live h.inv hstep, ?_⟩
  cases move_of_step hstep with
  | startAgain | startFails | start | openElsewhere | closeElsewhere => exact h.begun
  | acceptor hmove => cases hmove <;> exact h.begun
  | client _ hmove => cases hmove <;> exact h.begun
  | stop hmove =>
    cases hmove with
    | finish => exact absurd rfl hguard.2
    | requestAgain => exact h.begun
    | request | closeServer | noServer | joinAccept | lock | shutdown | unlock | join
    | clearThreads | clearFDs => simp

/-- Every step of the server lowers the work, and the rest of the process leaves it
as it is. -/
theorem workLeft_step {l : Label} (h : Stops s) (hguard : stopGoesOn s l)
    (hstep : step s l = some s') : l.isServer.toNat + workLeft s' ≤ workLeft s := by
  have hlower : workLeft s' < workLeft s → l.isServer.toNat + workLeft s' ≤ workLeft s := by
    intro hlt
    have hle := Bool.toNat_le l.isServer
    omega
  cases move_of_step hstep with
  | startAgain | startFails | openElsewhere | closeElsewhere => exact Nat.le_of_eq (Nat.zero_add _)
  | start hrunning =>
    have hrunning' := h.inv.phases.running h.begun
    exact absurd (hrunning.symm.trans hrunning') (by decide)
  | acceptor hmove =>
    refine hlower (workLeft_acceptMove h.live h.begun ?_ hmove)
    apply (h.inv.phases.accepting ?_).2
    intro habsent
    cases hmove <;> simp_all
  | @client i c a _ hc hmove =>
    refine hlower (workLeft_clientMove hc hmove ?_)
    rintro rfl
    exact absurd hguard.1 (by simp [assumed])
  | stop hmove =>
    refine hlower (workLeft_stopMove h.inv h.begun hmove ?_)
    rintro rfl
    exact hguard.2 rfl

/-! ## Some thread can go on -/

/-- A thread of the server can make a step.  It is the return of a handler only
while `stop` waits for the client threads. -/
def CanGoOn (s : State) : Prop :=
  ∃ l : Label, l.isServer = true ∧ assumed s l = true ∧ (step s l).isSome = true ∧
    ∀ i, l = .client i .handlerReturns → ∃ next, s.stopping = .joining next

theorem canGoOn_acceptor (a : AcceptStep) (hassumed : assumed s (.acceptor a) = true)
    (hstep : (acceptStep s a).isSome = true) : CanGoOn s :=
  ⟨.acceptor a, rfl, hassumed, hstep, fun _ h => by simp at h⟩

theorem canGoOn_stop (a : StopStep) (hstep : (stopStep s a).isSome = true) : CanGoOn s :=
  ⟨.stop a, rfl, rfl, hstep, fun _ h => by simp at h⟩

/-- A client thread that has not ended goes on, unless `stop` holds the lock. -/
theorem canGoOn_client {i : Nat} {c : Client} (hc : s.clients[i]? = some c)
    (hphase : c.phase ≠ .ended) (hlock : s.stopping.locksFDs = false)
    (hhandling : c.phase = .handling → ∃ next, s.stopping = .joining next) : CanGoOn s := by
  cases hp : c.phase with
  | handling =>
    refine ⟨.client i .handlerReturns, rfl, rfl, ?_, fun _ _ => hhandling hp⟩
    simp [step, hc, clientStep, hp]
  | returned =>
    refine ⟨.client i .mark, rfl, rfl, ?_, fun _ h => by simp at h⟩
    simp [step, hc, clientStep, hp]
  | marked =>
    refine ⟨.client i .removeClientFD, rfl, rfl, ?_, fun _ h => by simp at h⟩
    simp [step, hc, clientStep, hp, hlock]
  | removed =>
    refine ⟨.client i .destroySession, rfl, rfl, ?_, fun _ h => by simp at h⟩
    simp [step, hc, clientStep, hp]
  | ended => exact absurd hp hphase

/-- A thread that has ended can be joined. -/
theorem join_of_ended {clients : List Client} {t : Thread} {c : Client}
    (hc : clients[t.client]? = some c) (hended : c.phase = .ended) :
    ∃ clients', join clients t = some clients' := by
  rw [join]
  split
  · rw [hc, Option.bind_some, if_pos hended]
    exact ⟨_, rfl⟩
  · exact ⟨clients, rfl⟩

/-- There is an id that no thread has. -/
theorem exists_fresh_id (clients : List Client) :
    ∃ id, ¬ ∃ c ∈ clients, c.joins = 0 ∧ c.id = id := by
  have hbound : ∃ n, ∀ c ∈ clients, c.id < n := by
    induction clients with
    | nil => exact ⟨0, by simp⟩
    | cons c clients ih =>
      obtain ⟨n, hn⟩ := ih
      refine ⟨max n (c.id + 1), List.forall_mem_cons.mpr ⟨by omega, fun d hd => ?_⟩⟩
      have hlt := hn d hd
      omega
  obtain ⟨n, hn⟩ := hbound
  refine ⟨n, ?_⟩
  rintro ⟨c, hc, -, rfl⟩
  exact Nat.lt_irrefl _ (hn c hc)

/-- The accept thread goes on by itself, or waits for a thread that does. -/
theorem canGoOn_accepting (h : Stops s) (hstopping : s.stopping = .closed) : CanGoOn s := by
  have hlock : s.stopping.locksFDs = false := by rw [hstopping]; rfl
  have habsent := h.live.accepting (h.inv.phases.running h.begun) (by rw [hstopping]; rfl)
  cases hacceptor : s.acceptor with
  | absent => exact absurd hacceptor habsent
  | top => exact canGoOn_acceptor .check rfl (by simp [acceptStep, hacceptor])
  | polling => exact canGoOn_acceptor (.poll false) rfl (by simp [acceptStep, hacceptor])
  | accepting => exact canGoOn_acceptor (.accept none) rfl (by simp [acceptStep, hacceptor])
  | accepted fd => exact canGoOn_acceptor (.filter true) rfl (by simp [acceptStep, hacceptor])
  | admitted fd => exact canGoOn_acceptor .push rfl (by simp [acceptStep, hacceptor, hlock])
  | listed fd => exact canGoOn_acceptor .collect rfl (by simp [acceptStep, hacceptor])
  | joining fd ts =>
    cases ts with
    | nil =>
      obtain ⟨id, hid⟩ := exists_fresh_id s.clients
      refine canGoOn_acceptor (.spawn id) rfl ?_
      simp only [acceptStep, hacceptor, if_neg hid, Option.isSome_some]
    | cons t ts =>
      -- the threads of the cleanup have marked themselves, and so left their handlers
      obtain ⟨c, hc, hmarked⟩ := h.inv.threads.marked t
        (by rw [hacceptor]; exact List.mem_cons_self)
      by_cases hended : c.phase = .ended
      · obtain ⟨clients, hjoin⟩ := join_of_ended hc hended
        exact canGoOn_acceptor .join rfl (by simp [acceptStep, hacceptor, hjoin])
      · refine canGoOn_client hc hended hlock fun hhandling => ?_
        rw [hhandling] at hmarked
        exact absurd hmarked (by decide)
  | exited => exact canGoOn_stop .joinAccept (by simp [stopStep, hstopping, hacceptor])

/-- While `stop` waits for the client threads, the next one goes on, or can be
joined. -/
theorem canGoOn_joining (h : Stops s) {next : Nat} (hstopping : s.stopping = .joining next) :
    CanGoOn s := by
  have hlock : s.stopping.locksFDs = false := by rw [hstopping]; rfl
  have hvisited := h.live.visited
  rw [hstopping, Stopping.visited] at hvisited
  by_cases hnext : next = s.clientThreads.length
  · exact canGoOn_stop .clearThreads (by simp [stopStep, hstopping, hnext])
  · have hlt : next < s.clientThreads.length := by omega
    have hthread := List.getElem?_eq_getElem hlt
    generalize s.clientThreads[next] = t at hthread
    obtain ⟨c, hc⟩ := h.inv.threads.known t (List.mem_append_left _ (List.mem_of_getElem? hthread))
    by_cases hended : c.phase = .ended
    · obtain ⟨clients, hjoin⟩ := join_of_ended hc hended
      exact canGoOn_stop .join (by simp [stopStep, hstopping, hthread, hjoin])
    · exact canGoOn_client hc hended hlock fun _ => ⟨next, hstopping⟩

theorem canGoOn (h : Stops s) : CanGoOn s := by
  cases hstopping : s.stopping with
  | no => exact absurd hstopping h.begun
  | requested =>
    cases hserver : s.serverFD <;>
      exact canGoOn_stop .closeServer (by simp [stopStep, hstopping, hserver])
  | closed => exact canGoOn_accepting h hstopping
  | acceptJoined => exact canGoOn_stop .lock (by simp [stopStep, hstopping])
  | shuttingDown fds =>
    cases fds with
    | nil => exact canGoOn_stop .unlock (by simp [stopStep, hstopping])
    | cons fd fds => exact canGoOn_stop .shutdown (by simp [stopStep, hstopping])
  | joining next => exact canGoOn_joining h hstopping
  | threadsCleared => exact canGoOn_stop .clearFDs (by simp [stopStep, hstopping])
  | fdsCleared => exact canGoOn_stop .finish (by simp [stopStep, hstopping])

/-! ## Descriptors that were shut down -/

/-- The open descriptors that were shut down, after a step.  `shutdown` acts on the
first descriptor of the loop of `stop`, and a descriptor that is closed is no longer
one that was shut down. -/
def shutAfter (s : State) (l : Label) (s' : State) (shut : Finset Nat) : Finset Nat :=
  (match l, s.stopping with
    | .stop .shutdown, .shuttingDown (fd :: _) => insert fd shut
    | _, _ => shut) ∩ s'.openFDs

/-- The server and the descriptors that were shut down. -/
abbrev Watched := State × Finset Nat

/-- `stop` has shut the descriptor down, or will do so in the loop it is in. -/
def Reached (shut : Finset Nat) (fd : Nat) : Stopping → Prop
  | .shuttingDown fds => fd ∈ fds ∨ fd ∈ shut
  | .joining _ => fd ∈ shut
  | .no | .requested | .closed | .acceptJoined | .threadsCleared | .fdsCleared => True

/-- `stop` has reached every client thread that is in its handler. -/
def Covered (w : Watched) : Prop :=
  ∀ (i : Nat) (c : Client), w.1.clients[i]? = some c → c.phase = .handling →
    Reached w.2 c.fd w.1.stopping

/-- A client thread in its handler holds its descriptor, which is on the active
list. -/
theorem Inv.handling (h : Inv s) {i : Nat} {c : Client} (hc : s.clients[i]? = some c)
    (hphase : c.phase = .handling) : c.fd ∈ s.openFDs ∧ c.fd ∈ s.activeClientFDs := by
  have hopen : c.sessionOpen = true := by
    cases hsession : c.sessionOpen with
    | true => rfl
    | false =>
      have hended := h.threads.closed i c hc hsession
      rw [hphase] at hended
      exact absurd hended (by decide)
  have hlists : Lists s (.client i) c.fd := by
    simp [Lists, hc, Client.lists, hopen, hphase, ClientPhase.isListed]
  exact ⟨h.descriptors.held.taken (owns_of_lists hlists),
    (h.descriptors.active c.fd).mpr ⟨.client i, hlists⟩⟩

/-- A step that starts no handler and keeps `stop` where it is. -/
theorem Covered.frame {shut : Finset Nat} {l : Label} (h : Covered (s, shut)) (hinv : Inv s')
    (hl : l ≠ .stop .shutdown) (hstopping : s'.stopping = s.stopping)
    (hclients : ∀ (i : Nat) (c : Client), s'.clients[i]? = some c → c.phase = .handling →
      ∃ d, s.clients[i]? = some d ∧ d.phase = .handling ∧ d.fd = c.fd) :
    Covered (s', shutAfter s l s' shut) := by
  have hshut : shutAfter s l s' shut = shut ∩ s'.openFDs := by
    unfold shutAfter
    split
    · exact absurd rfl hl
    · rfl
  intro i c hc hphase
  obtain ⟨d, hd, hdphase, hfd⟩ := hclients i c hc hphase
  have hreached := h i d hd hdphase
  have hopen := (hinv.handling hc hphase).1
  rw [hfd] at hreached
  rw [hshut]
  show Reached _ _ s'.stopping
  rw [hstopping]
  cases hp : s.stopping <;> simp_all [Reached]

/-- A client thread that goes on does not come back to its handler. -/
theorem handling_of_set {clients : List Client} {i j : Nat} {c d : Client}
    (hphase : c.phase ≠ .handling) (hd : (clients.set i c)[j]? = some d)
    (hdphase : d.phase = .handling) :
    ∃ e, clients[j]? = some e ∧ e.phase = .handling ∧ e.fd = d.fd := by
  rcases getElem?_set_cases hd with ⟨-, rfl⟩ | ⟨-, hd⟩
  · exact absurd hdphase hphase
  · exact ⟨d, hd, hdphase, rfl⟩

/-- A join leaves the handlers. -/
theorem handling_of_join {clients clients' : List Client} {t : Thread}
    (h : join clients t = some clients') {j : Nat} {d : Client} (hd : clients'[j]? = some d)
    (hdphase : d.phase = .handling) :
    ∃ e, clients[j]? = some e ∧ e.phase = .handling ∧ e.fd = d.fd := by
  rw [(join_spec h).1 j, Option.map_eq_some_iff] at hd
  obtain ⟨e, he, rfl⟩ := hd
  exact ⟨e, he, hdphase, rfl⟩

theorem covered_of_accepting {shut : Finset Nat} (h : Inv s) (hacceptor : s.acceptor ≠ .absent)
    (hstopping : s'.stopping = s.stopping) : Covered (s', shut) := by
  have hpast := (h.phases.accepting hacceptor).2
  intro i c _ _
  show Reached shut c.fd s'.stopping
  rw [hstopping]
  cases hp : s.stopping <;> simp_all [Reached, Stopping.pastAccept]

theorem covered_stopMove {shut : Finset Nat} {a : StopStep} (h : Covered (s, shut)) (hinv : Inv s)
    (hinv' : Inv s') (hmove : StopMove s a s') :
    Covered (s', shutAfter s (.stop a) s' shut) := by
  cases hmove with
  | request | closeServer | noServer | joinAccept | clearThreads | clearFDs | finish =>
    exact fun _ _ _ _ => trivial
  | requestAgain => exact h.frame hinv (by simp) rfl fun i c hc hphase => ⟨c, hc, hphase, rfl⟩
  | lock hstopping => exact fun i c hc hphase => .inl (hinv.handling hc hphase).2
  | @shutdown fd fds hstopping =>
    intro i c hc hphase
    have hreached := h i c hc hphase
    have hopen := (hinv'.handling hc hphase).1
    simp only [hstopping, Reached, List.mem_cons] at hreached
    simp only [shutAfter, hstopping, Reached, Finset.mem_inter, Finset.mem_insert]
    rcases hreached with (hfd | hfds) | hshut
    · exact .inr ⟨.inl hfd, hopen⟩
    · exact .inl hfds
    · exact .inr ⟨.inr hshut, hopen⟩
  | unlock hstopping =>
    intro i c hc hphase
    have hreached := h i c hc hphase
    have hopen := (hinv'.handling hc hphase).1
    simp only [hstopping, Reached, List.not_mem_nil, false_or] at hreached
    simp only [shutAfter, Reached, Finset.mem_inter]
    exact ⟨hreached, hopen⟩
  | join hstopping hthread hjoin =>
    intro i c hc hphase
    obtain ⟨d, hd, hdphase, hfd⟩ := handling_of_join hjoin hc hphase
    have hreached := h i d hd hdphase
    have hopen := (hinv'.handling hc hphase).1
    simp only [hstopping, Reached, hfd] at hreached
    simp only [shutAfter, Reached, Finset.mem_inter]
    exact ⟨hreached, hopen⟩

theorem covered_step {shut : Finset Nat} {l : Label} (h : Covered (s, shut)) (hinv : Inv s)
    (hassumed : assumed s l = true) (hstep : step s l = some s') :
    Covered (s', shutAfter s l s' shut) := by
  have hinv' := inv_step hinv hassumed hstep
  cases move_of_step hstep with
  | startAgain | startFails | start | openElsewhere | closeElsewhere =>
    exact h.frame hinv' (by simp) rfl fun i c hc hphase => ⟨c, hc, hphase, rfl⟩
  | acceptor hmove =>
    refine covered_of_accepting hinv ?_ ?_
    · intro habsent
      cases hmove <;> simp_all
    · cases hmove <;> rfl
  | client hc hmove =>
    cases hmove with
    | closeSession => exact absurd hassumed (by simp [assumed])
    | handlerReturns | mark | removeClientFD | destroySession =>
      exact h.frame hinv' (by simp) rfl fun j d hd => handling_of_set (by simp) hd
  | stop hmove => exact covered_stopMove h hinv hinv' hmove

/-! ## Runs -/

/-- A handler that can return is that of a client thread in it. -/
theorem handling_of_step {i : Nat}
    (h : (step s (.client i .handlerReturns)).isSome = true) :
    ∃ c, s.clients[i]? = some c ∧ c.phase = .handling := by
  obtain ⟨s', hstep⟩ := Option.isSome_iff_exists.mp h
  cases move_of_step hstep with
  | client hc hmove =>
    cases hmove with
    | handlerReturns hphase => exact ⟨_, hc, hphase⟩

/-- `stop` returns.  Take a run in which `accept` returns descriptors that are not
open and no handler closes its session, and let `stop` be under way at its end.
Some thread of the server can make a step there; it is the return of a session
handler only if the descriptor of its session was shut down.  And however the run
goes on, the threads of the server make at most `workLeft` steps before `stop`
returns. -/
theorem stop_completes (labels : List Label) (s : State) (shut : Finset Nat)
    (hrun : Runs (observed step shutAfter) (fun w l => assumed w.1 l = true) (init, ∅) labels
      (s, shut))
    (hstopping : s.stopping ≠ .no) :
    (∃ l : Label, l.isServer = true ∧ assumed s l = true ∧ (step s l).isSome = true ∧
      ∀ i, l = .client i .handlerReturns →
        ∃ c, s.clients[i]? = some c ∧ c.fd ∈ shut) ∧
    ∀ (more : List Label) (t : State), Runs step stopGoesOn s more t →
      more.countP Label.isServer ≤ workLeft s := by
  have hinit : Inv init ∧ Live init ∧ Covered (init, ∅) :=
    ⟨inv_init, live_init, fun _ _ _ _ => trivial⟩
  have hreached : Inv s ∧ Live s ∧ Covered (s, shut) := by
    refine hrun.invariant (I := fun w => Inv w.1 ∧ Live w.1 ∧ Covered w) ?_ hinit
    rintro w l w' ⟨hinv, hlive, hcovered⟩ hassumed hfires
    obtain ⟨hstep, hshut⟩ := observed_eq_some.mp hfires
    have hcovered' := covered_step hcovered hinv hassumed hstep
    rw [← hshut] at hcovered'
    exact ⟨inv_step hinv hassumed hstep, live_step hlive hinv hstep, hcovered'⟩
  obtain ⟨hinv, hlive, hcovered⟩ := hreached
  have hstops : Stops s := ⟨hinv, hlive, hstopping⟩
  constructor
  · obtain ⟨l, hserver, hassumed, hstep, hjoining⟩ := canGoOn hstops
    refine ⟨l, hserver, hassumed, hstep, ?_⟩
    rintro i rfl
    obtain ⟨next, hnext⟩ := hjoining i rfl
    obtain ⟨c, hc, hphase⟩ := handling_of_step hstep
    have hfd := hcovered i c hc hphase
    rw [hnext] at hfd
    exact ⟨c, hc, hfd⟩
  · intro more t hmore
    have hcount : more.countP Label.isServer + workLeft t ≤ workLeft s :=
      hmore.countP_add_rank_le hstops (fun _ _ _ h hguard hstep => stops_step h hguard hstep)
        fun _ _ _ h hguard hstep => workLeft_step h hguard hstep
    omega

/-- A connection is served while `stop` is called, up to the point where `stop`
waits for its thread. -/
def stopWhileServing : List Label :=
  [.start (some 3)] ++ connect 0 ++
  [.stop .request, .stop .closeServer, .acceptor .check, .stop .joinAccept, .stop .lock,
    .stop .shutdown, .stop .unlock]

/-- The descriptor of the connection was shut down, and at most nine steps are
left. -/
theorem stop_completes_while_serving :
    ∃ s, Runs (observed step shutAfter) (fun w l => assumed w.1 l = true) (init, ∅)
        stopWhileServing (s, {4}) ∧
      workLeft s = 9 ∧
      (∃ l : Label, l.isServer = true ∧ assumed s l = true ∧ (step s l).isSome = true ∧
        ∀ i, l = .client i .handlerReturns → ∃ c, s.clients[i]? = some c ∧ c.fd ∈ ({4} : Finset Nat)) ∧
      ∀ (more : List Label) (t : State), Runs step stopGoesOn s more t →
        more.countP Label.isServer ≤ workLeft s := by
  have hexec : (exec (guarded (observed step shutAfter) fun w l => assumed w.1 l) (init, ∅)
      stopWhileServing).map (fun w => (w.1.stopping, workLeft w.1, w.2)) =
        some (.joining 0, 9, {4}) := by decide
  obtain ⟨⟨s, shut⟩, hs, hend⟩ := Option.map_eq_some_iff.mp hexec
  simp only [Prod.mk.injEq] at hend
  obtain ⟨hstopping, hwork, rfl⟩ := hend
  have hrun := runs_of_exec_guarded hs
  obtain ⟨hgoesOn, hcount⟩ := stop_completes stopWhileServing s {4} hrun (by simp [hstopping])
  exact ⟨s, hrun, hwork, hgoesOn, hcount⟩

end OracleMachine.Network.TcpServer
