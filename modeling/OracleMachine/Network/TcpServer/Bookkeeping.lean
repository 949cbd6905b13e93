import OracleMachine.Lib.Transition
import OracleMachine.Network.TcpServer.Descriptors
import OracleMachine.Network.TcpServer.Moves
import OracleMachine.Network.TcpServer.Threads

/-!
# The bookkeeping of the TCP server over whole runs

`Inv` puts the descriptors and the threads together with `Phases`, which says
what `stop` has done so far: it clears the collections only after the accept
thread is gone and every handle was visited.  There is one lemma for each move
of a party, `inv_step` puts them together, and `bookkeeping` is the result for
every run.
`bookkeeping_reuse` is a run in which a descriptor and a thread id are used a
second time.
-/

namespace OracleMachine.Network.TcpServer

open Lib.Entries Lib.Transition

/-! ## The invariant -/

/-- `stop` has joined the accept thread. -/
def Stopping.pastAccept : Stopping → Bool
  | .no | .requested | .closed => false
  | .acceptJoined | .shuttingDown _ | .joining _ | .threadsCleared | .fdsCleared => true

/-- `stop` has cleared the handles and ids. -/
def Stopping.pastThreads : Stopping → Bool
  | .threadsCleared | .fdsCleared => true
  | .no | .requested | .closed | .acceptJoined | .shuttingDown _ | .joining _ => false

/-- What `stop` has done. -/
structure Phases (s : State) : Prop where
  running : s.stopping ≠ .no → s.running = true
  acceptor : s.running = false ∨ s.stopping.pastAccept → s.acceptor = .absent
  locked : ∀ fds, s.stopping = .shuttingDown fds → fds ⊆ s.activeClientFDs
  threads : s.running = false ∨ s.stopping.pastThreads →
    s.clientThreads = [] ∧ s.finishedThreadIds = ∅
  fds : s.running = false ∨ s.stopping = .fdsCleared → s.activeClientFDs = []

/-- The invariant of the server. -/
structure Inv (s : State) : Prop where
  descriptors : Fds s
  threads : Threads s
  phases : Phases s

theorem inv_init : Inv init where
  descriptors := by
    refine ⟨⟨?_, ?_⟩, List.nodup_nil, ?_⟩
    · intro o fd h
      cases o <;> simp [Owns, init, Acceptor.owned] at h
    · intro o o' fd h
      cases o <;> simp [Owns, init, Acceptor.owned] at h
    · intro fd
      refine ⟨fun h => absurd h List.not_mem_nil, ?_⟩
      rintro ⟨o, h⟩
      cases o <;> simp [Lists, init, Acceptor.lists] at h
  threads := by
    constructor <;> simp [init, State.handles, Acceptor.threadsToJoin, HoldsId]
  phases := by constructor <;> simp [init, Stopping.pastAccept, Stopping.pastThreads]

theorem visited_eq_zero {p : Stopping} (h : p.pastAccept = false) : p.visited = 0 := by
  cases p <;> simp_all [Stopping.pastAccept, Stopping.visited]

theorem pastAccept_of_pastThreads {p : Stopping} (h : p.pastThreads) : p.pastAccept := by
  cases p <;> simp_all [Stopping.pastAccept, Stopping.pastThreads]

/-- While the accept thread runs, the server does and `stop` waits for it. -/
theorem Phases.accepting {s : State} (h : Phases s) (hacceptor : s.acceptor ≠ .absent) :
    s.running = true ∧ s.stopping.pastAccept = false := by
  constructor
  · cases hr : s.running with
    | true => rfl
    | false => exact absurd (h.acceptor (.inl hr)) hacceptor
  · cases hp : s.stopping.pastAccept with
    | false => rfl
    | true => exact absurd (h.acceptor (.inr hp)) hacceptor

/-- While `stop` has not joined the accept thread, it has cleared nothing. -/
theorem phases_of_running {s : State} (hrunning : s.running = true)
    (hstopping : s.stopping.pastAccept = false) : Phases s where
  running _ := hrunning
  acceptor := by simp [hrunning, hstopping]
  locked := by
    intro fds hlocked
    rw [hlocked] at hstopping
    exact absurd hstopping (by simp [Stopping.pastAccept])
  threads := by
    rintro (hr | hp)
    · simp [hrunning] at hr
    · simp [pastAccept_of_pastThreads hp] at hstopping
  fds := by
    rintro (hr | hp)
    · simp [hrunning] at hr
    · simp [hp, Stopping.pastAccept] at hstopping

/-- A step of the accept thread: `stop` still waits for it. -/
theorem Phases.of_accepting {s s' : State} (h : Phases s) (hacceptor : s.acceptor ≠ .absent)
    (hrunning : s'.running = s.running) (hstopping : s'.stopping = s.stopping) : Phases s' := by
  obtain ⟨hrunning₀, hstopping₀⟩ := h.accepting hacceptor
  exact phases_of_running (hrunning.trans hrunning₀) (by rw [hstopping, hstopping₀])

/-- A step beside `stop` and the accept thread: it marks a thread only while
there are handles, and takes entries off the list only while `stop` does not
hold the lock. -/
theorem Phases.frame {s s' : State} (h : Phases s) (hrunning : s'.running = s.running)
    (hstopping : s'.stopping = s.stopping) (hacceptor : s'.acceptor = s.acceptor)
    (hthreads : s'.clientThreads = s.clientThreads)
    (hfinished : s.clientThreads = [] → s'.finishedThreadIds = s.finishedThreadIds)
    (hsub : s'.activeClientFDs ⊆ s.activeClientFDs)
    (hlocked : s.stopping.locksFDs → s'.activeClientFDs = s.activeClientFDs) : Phases s' where
  running := by rw [hrunning, hstopping]; exact h.running
  acceptor := by rw [hrunning, hstopping, hacceptor]; exact h.acceptor
  locked := by
    intro fds hfds
    rw [hstopping] at hfds
    rw [hlocked (by rw [hfds]; rfl)]
    exact h.locked fds hfds
  threads := by
    rw [hrunning, hstopping, hthreads]
    intro hpast
    obtain ⟨hnil, hempty⟩ := h.threads hpast
    exact ⟨hnil, (hfinished hnil).trans hempty⟩
  fds := by
    rw [hrunning, hstopping]
    intro hpast
    rw [h.fds hpast] at hsub
    exact List.subset_nil.mp hsub

/-- After the accept thread is joined the server is still running, and the
accept thread is gone. -/
theorem Phases.past {s : State} (h : Phases s) (hpast : s.stopping.pastAccept) :
    s.running = true ∧ s.acceptor = .absent := by
  refine ⟨h.running ?_, h.acceptor (.inr hpast)⟩
  intro hno
  rw [hno] at hpast
  exact absurd hpast (by decide)

/-- `stop` goes on after it has joined the accept thread. -/
theorem phases_of_past {s : State} (hrunning : s.running = true) (hacceptor : s.acceptor = .absent)
    (hlocked : ∀ fds, s.stopping = .shuttingDown fds → fds ⊆ s.activeClientFDs)
    (hthreads : s.stopping.pastThreads → s.clientThreads = [] ∧ s.finishedThreadIds = ∅)
    (hfds : s.stopping = .fdsCleared → s.activeClientFDs = []) : Phases s where
  running _ := hrunning
  acceptor _ := hacceptor
  locked := hlocked
  threads hpast := hthreads (hpast.resolve_left (by simp [hrunning]))
  fds hpast := hfds (hpast.resolve_left (by simp [hrunning]))

/-! ## The moves of the accept thread -/

section Moves

variable {s s' : State}

/-- The accept thread goes on without touching anything. -/
theorem Inv.set_acceptor (h : Inv s) (hacceptor : s.acceptor ≠ .absent)
    {a : Acceptor} (howned : a.owned = s.acceptor.owned) (hlists : a.lists = s.acceptor.lists)
    (htoJoin : a.threadsToJoin = s.acceptor.threadsToJoin) :
    Inv { s with acceptor := a } := by
  refine ⟨?_, h.threads.frame rfl rfl rfl htoJoin rfl, h.phases.of_accepting hacceptor rfl rfl⟩
  exact h.descriptors.frame (owns_congr rfl howned (fun _ => rfl) rfl)
    (lists_congr hlists fun _ => rfl) rfl rfl

theorem inv_accept (h : Inv s) {fd : Nat} (hacceptor : s.acceptor = .accepting)
    (hfree : fd ∉ s.openFDs) :
    Inv { s with acceptor := .accepted fd, openFDs := insert fd s.openFDs } := by
  refine ⟨?_, ?_, h.phases.of_accepting (by simp [hacceptor]) rfl rfl⟩
  · refine h.descriptors.acquire (o := .acceptor) hfree ?_ (lists_congr ?_ fun _ => rfl) rfl rfl
    · intro o x ho
      cases o with
      | acceptor => exact .inr ⟨rfl, (Option.some.inj ho).symm⟩
      | server | client i | elsewhere => exact .inl ho
    · rw [hacceptor]
      rfl
  · refine h.threads.frame rfl rfl rfl ?_ rfl
    rw [hacceptor]
    rfl

theorem inv_reject (h : Inv s) {fd : Nat} (hacceptor : s.acceptor = .accepted fd) :
    Inv { s with acceptor := .top, openFDs := s.openFDs.erase fd } := by
  refine ⟨?_, ?_, h.phases.of_accepting (by simp [hacceptor]) rfl rfl⟩
  · have hown : Owns s .acceptor fd := by
      show s.acceptor.owned = some fd
      rw [hacceptor]
      rfl
    refine h.descriptors.release hown ?_ (lists_congr ?_ fun _ => rfl) rfl rfl
    · intro o x ho
      cases o with
      | acceptor => simp [Owns, Acceptor.owned] at ho
      | server | client i | elsewhere => exact ⟨ho, by simp⟩
    · rw [hacceptor]
      rfl
  · refine h.threads.frame rfl rfl rfl ?_ rfl
    rw [hacceptor]
    rfl

theorem inv_push (h : Inv s) {fd : Nat} (hacceptor : s.acceptor = .admitted fd) :
    Inv { s with acceptor := .listed fd, activeClientFDs := s.activeClientFDs ++ [fd] } := by
  refine ⟨h.descriptors.push hacceptor, ?_, h.phases.of_accepting (by simp [hacceptor]) rfl rfl⟩
  refine h.threads.frame rfl rfl rfl ?_ rfl
  rw [hacceptor]
  rfl

theorem inv_collect (h : Inv s) {fd : Nat} (hacceptor : s.acceptor = .listed fd) :
    Inv { s with
      clientThreads := (collectFinished s.clients s.clientThreads s.finishedThreadIds).1
      acceptor := .joining fd (collectFinished s.clients s.clientThreads s.finishedThreadIds).2.1
      finishedThreadIds :=
        (collectFinished s.clients s.clientThreads s.finishedThreadIds).2.2 } := by
  have haccepting : s.acceptor ≠ .absent := by simp [hacceptor]
  have hvisited := visited_eq_zero (h.phases.accepting haccepting).2
  refine ⟨?_, h.threads.collect hacceptor hvisited, h.phases.of_accepting haccepting rfl rfl⟩
  refine h.descriptors.frame (owns_congr rfl ?_ (fun _ => rfl) rfl)
    (lists_congr ?_ fun _ => rfl) rfl rfl
  all_goals rw [hacceptor]; rfl

theorem inv_cleanupJoin (h : Inv s) {fd : Nat} {t : Thread} {ts : List Thread}
    (hacceptor : s.acceptor = .joining fd (t :: ts)) {clients : List Client}
    (hjoin : join s.clients t = some clients) :
    Inv { s with clients, acceptor := .joining fd ts } := by
  refine ⟨h.descriptors.joined hjoin rfl ?_ ?_ rfl rfl rfl, ?_,
    h.phases.of_accepting (by simp [hacceptor]) rfl rfl⟩
  · rw [hacceptor]
    rfl
  · rw [hacceptor]
    rfl
  · refine h.threads.joined hjoin ?_ ?_ rfl rfl ?_ h.threads.joinable
    · intro i
      simp only [State.handles, hacceptor, Acceptor.threadsToJoin, joinables,
        List.countP_append, List.countP_cons, List.countP_nil]
      omega
    · apply List.map_subset
      intro u hu
      simp only [State.handles, hacceptor, Acceptor.threadsToJoin, List.mem_append,
        List.mem_cons] at hu ⊢
      exact hu.imp_right .inr
    · rw [hacceptor]
      exact List.subset_cons_self t ts

theorem inv_spawn (h : Inv s) {fd id : Nat} (hacceptor : s.acceptor = .joining fd [])
    (hid : ¬ ∃ c ∈ s.clients, c.joins = 0 ∧ c.id = id) :
    Inv { s with
      acceptor := .top
      clients := s.clients ++ [{ id, fd, sessionOpen := true, phase := .handling, joins := 0 }]
      clientThreads := s.clientThreads ++ [{ client := s.clients.length, joinable := true }] } := by
  have haccepting : s.acceptor ≠ .absent := by simp [hacceptor]
  have hvisited := visited_eq_zero (h.phases.accepting haccepting).2
  exact ⟨h.descriptors.spawn hacceptor id _, h.threads.spawn hacceptor hvisited hid,
    h.phases.of_accepting haccepting rfl rfl⟩

theorem inv_acceptMove (h : Inv s) {a : AcceptStep} (hassumed : assumed s (.acceptor a))
    (hmove : AcceptMove s a s') : Inv s' := by
  cases hmove with
  | check hacceptor | poll hacceptor | failed hacceptor =>
    apply h.set_acceptor (by simp [hacceptor])
    all_goals rw [hacceptor]; split <;> rfl
  | allow hacceptor =>
    apply h.set_acceptor (by simp [hacceptor])
    all_goals rw [hacceptor]; rfl
  | accept hacceptor => exact inv_accept h hacceptor (of_decide_eq_true hassumed)
  | reject hacceptor => exact inv_reject h hacceptor
  | push hacceptor => exact inv_push h hacceptor
  | collect hacceptor => exact inv_collect h hacceptor
  | join hacceptor hjoin => exact inv_cleanupJoin h hacceptor hjoin
  | spawn hacceptor hid => exact inv_spawn h hacceptor hid

/-! ## The moves of a client thread -/

section Client

variable {i : Nat} {c : Client}

theorem inv_handlerReturns (h : Inv s) (hc : s.clients[i]? = some c)
    (hphase : c.phase = .handling) :
    Inv { s with clients := s.clients.set i { c with phase := .returned } } := by
  have hopen := h.threads.sessionOpen hc (by simp [hphase])
  refine ⟨h.descriptors.set_phase hc (by rw [hphase]; rfl) _,
    h.threads.set_phase hc (by simp [hphase]) (by simp [hopen])
      (by simp [hphase, ClientPhase.isMarked]), ?_⟩
  exact h.phases.frame rfl rfl rfl rfl (fun _ => rfl) (List.Subset.refl _) fun _ => rfl

theorem inv_mark (h : Inv s) (hc : s.clients[i]? = some c) (hphase : c.phase = .returned) :
    Inv { s with
      clients := s.clients.set i { c with phase := .marked }
      finishedThreadIds := insert c.id s.finishedThreadIds } := by
  refine ⟨h.descriptors.set_phase hc (by rw [hphase]; rfl) _, h.threads.mark hc hphase, ?_⟩
  refine h.phases.frame rfl rfl rfl rfl ?_ (List.Subset.refl _) fun _ => rfl
  intro hnil
  obtain ⟨t, ht, -⟩ := h.threads.exists_clientThread hc (by rw [hphase]; rfl)
  rw [hnil] at ht
  exact absurd ht List.not_mem_nil

theorem inv_removeClientFD (h : Inv s) (hc : s.clients[i]? = some c) (hphase : c.phase = .marked)
    (hlock : s.stopping.locksFDs = false) :
    Inv { s with
      clients := s.clients.set i { c with phase := .removed }
      activeClientFDs := s.activeClientFDs.erase c.fd } := by
  have hopen := h.threads.sessionOpen hc (by simp [hphase])
  refine ⟨h.descriptors.remove hc hphase hopen, ?_, ?_⟩
  · have hnext : Threads { s with clients := s.clients.set i { c with phase := .removed } } :=
      h.threads.set_phase hc (by simp [hphase]) (by simp [hopen]) fun _ => rfl
    exact hnext.frame rfl rfl rfl rfl rfl
  · exact h.phases.frame rfl rfl rfl rfl (fun _ => rfl) List.erase_subset (by simp [hlock])

theorem inv_destroySession (h : Inv s) (hc : s.clients[i]? = some c)
    (hphase : c.phase = .removed) : Inv (closeSession s i c .ended) := by
  refine ⟨h.descriptors.destroy hc hphase, ?_, ?_⟩
  · exact (h.threads.set_phase hc (by simp [hphase]) (fun _ => rfl) fun _ => rfl).frame
      rfl rfl rfl rfl rfl
  · exact h.phases.frame rfl rfl rfl rfl (fun _ => rfl) (List.Subset.refl _) fun _ => rfl

theorem inv_clientMove (h : Inv s) (hc : s.clients[i]? = some c) {a : ClientStep}
    (hassumed : assumed s (.client i a)) (hmove : ClientMove s i c a s') : Inv s' := by
  cases hmove with
  | handlerReturns hphase => exact inv_handlerReturns h hc hphase
  | closeSession => exact absurd hassumed (by simp [assumed])
  | mark hphase => exact inv_mark h hc hphase
  | removeClientFD hphase hlock => exact inv_removeClientFD h hc hphase hlock
  | destroySession hphase => exact inv_destroySession h hc hphase

end Client

/-! ## The moves of `stop` -/

/-- `stop` goes on without touching anything. -/
theorem Inv.set_stopping (h : Inv s) {p : Stopping}
    (hvisited : p.visited = s.stopping.visited) (hphases : Phases { s with stopping := p }) :
    Inv { s with stopping := p } :=
  ⟨h.descriptors.frame rfl rfl rfl rfl, h.threads.frame rfl rfl rfl rfl hvisited, hphases⟩

theorem inv_request (h : Inv s) (hstopping : s.stopping = .no) (hrunning : s.running = true) :
    Inv { s with stopRequested := true, stopping := .requested } :=
  ⟨h.descriptors.frame rfl rfl rfl rfl,
    h.threads.frame rfl rfl rfl rfl (by rw [hstopping]; rfl), phases_of_running hrunning rfl⟩

theorem inv_closeServer (h : Inv s) {fd : Nat} (hstopping : s.stopping = .requested)
    (hserver : s.serverFD = some fd) :
    Inv { s with serverFD := none, openFDs := s.openFDs.erase fd, stopping := .closed } := by
  have hrunning := h.phases.running (by simp [hstopping])
  exact ⟨h.descriptors.closeServer hserver rfl,
    h.threads.frame rfl rfl rfl rfl (by rw [hstopping]; rfl), phases_of_running hrunning rfl⟩

theorem inv_noServer (h : Inv s) (hstopping : s.stopping = .requested) :
    Inv { s with stopping := .closed } := by
  have hrunning := h.phases.running (by simp [hstopping])
  exact h.set_stopping (by rw [hstopping]; rfl) (phases_of_running hrunning rfl)

theorem inv_joinAccept (h : Inv s) (hstopping : s.stopping = .closed)
    (hacceptor : s.acceptor = .exited) :
    Inv { s with acceptor := .absent, stopping := .acceptJoined } := by
  have hrunning := h.phases.running (by simp [hstopping])
  refine ⟨?_, ?_, phases_of_past hrunning rfl (by simp) (by simp [Stopping.pastThreads])
    (by simp)⟩
  · refine h.descriptors.frame (owns_congr rfl ?_ (fun _ => rfl) rfl)
      (lists_congr ?_ fun _ => rfl) rfl rfl
    all_goals rw [hacceptor]; rfl
  · refine h.threads.frame rfl rfl rfl ?_ ?_
    · rw [hacceptor]
      rfl
    · rw [hstopping]
      rfl

theorem inv_lock (h : Inv s) (hstopping : s.stopping = .acceptJoined) :
    Inv { s with stopping := .shuttingDown s.activeClientFDs } := by
  obtain ⟨hrunning, hacceptor⟩ := h.phases.past (by rw [hstopping]; rfl)
  apply h.set_stopping (by rw [hstopping]; rfl)
  refine phases_of_past hrunning hacceptor ?_ (by simp [Stopping.pastThreads]) (by simp)
  intro fds hfds
  rw [Stopping.shuttingDown.inj hfds]
  exact List.Subset.refl _

theorem inv_shutdown (h : Inv s) {fd : Nat} {fds : List Nat}
    (hstopping : s.stopping = .shuttingDown (fd :: fds)) :
    Inv { s with stopping := .shuttingDown fds } := by
  obtain ⟨hrunning, hacceptor⟩ := h.phases.past (by rw [hstopping]; rfl)
  apply h.set_stopping (by rw [hstopping]; rfl)
  refine phases_of_past hrunning hacceptor ?_ (by simp [Stopping.pastThreads]) (by simp)
  intro rest hrest
  rw [← Stopping.shuttingDown.inj hrest]
  exact List.Subset.trans (List.subset_cons_self fd fds) (h.phases.locked _ hstopping)

theorem inv_unlock (h : Inv s) (hstopping : s.stopping = .shuttingDown []) :
    Inv { s with stopping := .joining 0 } := by
  obtain ⟨hrunning, hacceptor⟩ := h.phases.past (by rw [hstopping]; rfl)
  apply h.set_stopping (by rw [hstopping]; rfl)
  exact phases_of_past hrunning hacceptor (by simp) (by simp [Stopping.pastThreads]) (by simp)

theorem inv_stopJoin (h : Inv s) {next : Nat} (hstopping : s.stopping = .joining next)
    {t : Thread} (ht : s.clientThreads[next]? = some t) {clients : List Client}
    (hjoin : join s.clients t = some clients) :
    Inv { s with
      clients
      clientThreads := s.clientThreads.set next { t with joinable := false }
      stopping := .joining (next + 1) } := by
  obtain ⟨hrunning, hacceptor⟩ := h.phases.past (by rw [hstopping]; rfl)
  refine ⟨h.descriptors.joined hjoin rfl rfl rfl rfl rfl rfl, ?_,
    phases_of_past hrunning hacceptor (by simp) (by simp [Stopping.pastThreads]) (by simp)⟩
  obtain ⟨hlt, hget⟩ := List.getElem?_eq_some_iff.mp ht
  obtain ⟨before, after, hsplit, -, hset⟩ : ∃ before after,
      s.clientThreads = before ++ s.clientThreads[next] :: after ∧ before.length = next ∧
        s.clientThreads.set next { t with joinable := false } =
          before ++ { t with joinable := false } :: after := List.exists_of_set hlt
  rw [hget] at hsplit
  have hmap : (s.clientThreads.set next { t with joinable := false }).map Thread.client =
      s.clientThreads.map Thread.client := by
    rw [hset, hsplit]
    simp
  refine h.threads.joined hjoin ?_ ?_ hmap rfl (List.Subset.refl _) ?_
  · intro i
    simp only [State.handles, hacceptor, Acceptor.threadsToJoin, List.append_nil, joinables]
    rw [hset, hsplit]
    simp only [List.countP_append, List.countP_cons, List.countP_nil, Bool.false_and,
      Bool.false_eq_true, if_false]
    omega
  · simp only [State.handles, hacceptor, Acceptor.threadsToJoin, List.append_nil]
    rw [hmap]
    exact List.Subset.refl _
  · intro j u hu
    show u.joinable = decide (next + 1 ≤ j)
    rcases getElem?_set_cases hu with ⟨rfl, rfl⟩ | ⟨hne, hu⟩
    · simp
    · have hvisited := h.threads.joinable j u hu
      rw [hstopping] at hvisited
      rw [hvisited, decide_eq_decide, Stopping.visited]
      omega

theorem inv_clearThreads (h : Inv s) (hstopping : s.stopping = .joining s.clientThreads.length) :
    Inv { s with
      clientThreads := [], finishedThreadIds := ∅, stopping := .threadsCleared } := by
  obtain ⟨hrunning, hacceptor⟩ := h.phases.past (by rw [hstopping]; rfl)
  exact ⟨h.descriptors.frame rfl rfl rfl rfl, h.threads.clear hacceptor hstopping,
    phases_of_past hrunning hacceptor (by simp) (fun _ => ⟨rfl, rfl⟩) (by simp)⟩

/-- Once the handles are cleared no client thread is left to list a
descriptor. -/
theorem Inv.no_active (h : Inv s) (hpast : s.stopping.pastThreads) :
    s.activeClientFDs = [] := by
  have hacceptor := (h.phases.past (pastAccept_of_pastThreads hpast)).2
  have hhandles : s.handles = [] := by
    rw [handles_eq (by rw [hacceptor]; rfl), (h.phases.threads (.inr hpast)).1]
  apply List.eq_nil_iff_forall_not_mem.mpr
  intro fd hfd
  obtain ⟨o, ho⟩ := (h.descriptors.active fd).mp hfd
  cases o with
  | acceptor => simp [Lists, hacceptor, Acceptor.lists] at ho
  | client i =>
    obtain ⟨c, hc, hlists⟩ := Option.bind_eq_some_iff.mp ho
    have hjoins := h.threads.joined_of_no_handles hhandles hc
    have hended := h.threads.ended i c hc (by simp [hjoins])
    simp [Client.lists, hended, ClientPhase.isListed] at hlists
  | server | elsewhere => exact False.elim ho

theorem inv_clearFDs (h : Inv s) (hstopping : s.stopping = .threadsCleared) :
    Inv { s with activeClientFDs := [], stopping := .fdsCleared } := by
  have hpast : s.stopping.pastThreads := by rw [hstopping]; rfl
  obtain ⟨hrunning, hacceptor⟩ := h.phases.past (pastAccept_of_pastThreads hpast)
  exact ⟨h.descriptors.frame rfl rfl rfl (h.no_active hpast).symm,
    h.threads.frame rfl rfl rfl rfl (by rw [hstopping]; rfl),
    phases_of_past hrunning hacceptor (by simp) (fun _ => h.phases.threads (.inr hpast))
      fun _ => rfl⟩

theorem inv_finish (h : Inv s) (hstopping : s.stopping = .fdsCleared) :
    Inv { s with running := false, stopping := .no } := by
  have hpast : s.stopping.pastThreads := by rw [hstopping]; rfl
  have hacceptor := (h.phases.past (pastAccept_of_pastThreads hpast)).2
  refine ⟨h.descriptors.frame rfl rfl rfl rfl,
    h.threads.frame rfl rfl rfl rfl (by rw [hstopping]; rfl), ?_⟩
  exact ⟨by simp, fun _ => hacceptor, by simp, fun _ => h.phases.threads (.inr hpast),
    fun _ => h.phases.fds (.inr hstopping)⟩

theorem inv_stopMove (h : Inv s) {a : StopStep} (hmove : StopMove s a s') : Inv s' := by
  cases hmove with
  | request hstopping hrunning => exact inv_request h hstopping hrunning
  | requestAgain => exact h
  | closeServer hstopping hserver => exact inv_closeServer h hstopping hserver
  | noServer hstopping => exact inv_noServer h hstopping
  | joinAccept hstopping hacceptor => exact inv_joinAccept h hstopping hacceptor
  | lock hstopping => exact inv_lock h hstopping
  | shutdown hstopping => exact inv_shutdown h hstopping
  | unlock hstopping => exact inv_unlock h hstopping
  | join hstopping hthread hjoin => exact inv_stopJoin h hstopping hthread hjoin
  | clearThreads hstopping => exact inv_clearThreads h hstopping
  | clearFDs hstopping => exact inv_clearFDs h hstopping
  | finish hstopping => exact inv_finish h hstopping

/-! ## The other moves, and all of them -/

theorem inv_start (h : Inv s) {fd : Nat} (hrunning : s.running = false) (hfree : fd ∉ s.openFDs) :
    Inv { s with
      running := true
      stopRequested := false
      serverFD := some fd
      acceptor := .top
      openFDs := insert fd s.openFDs } := by
  have hacceptor := h.phases.acceptor (.inl hrunning)
  have hstopping : s.stopping = .no := by
    apply Classical.byContradiction
    intro hne
    rw [h.phases.running hne] at hrunning
    exact absurd hrunning (by decide)
  refine ⟨?_, ?_, phases_of_running rfl (by rw [hstopping]; rfl)⟩
  · refine h.descriptors.acquire (o := .server) hfree ?_ (lists_congr ?_ fun _ => rfl) rfl rfl
    · intro o x ho
      cases o with
      | server => exact .inr ⟨rfl, (Option.some.inj ho).symm⟩
      | acceptor => simp [Owns, Acceptor.owned] at ho
      | client i | elsewhere => exact .inl ho
    · rw [hacceptor]
      rfl
  · refine h.threads.frame rfl rfl rfl ?_ rfl
    rw [hacceptor]
    rfl

theorem inv_openElsewhere (h : Inv s) {fd : Nat} (hfree : fd ∉ s.openFDs) :
    Inv { s with openFDs := insert fd s.openFDs, elsewhere := insert fd s.elsewhere } := by
  refine ⟨?_, h.threads.frame rfl rfl rfl rfl rfl,
    h.phases.frame rfl rfl rfl rfl (fun _ => rfl) (List.Subset.refl _) fun _ => rfl⟩
  refine h.descriptors.acquire (o := .elsewhere) hfree ?_ rfl rfl rfl
  intro o x ho
  cases o with
  | elsewhere =>
    rcases Finset.mem_insert.mp ho with hx | hx
    · exact .inr ⟨rfl, hx⟩
    · exact .inl hx
  | server | acceptor | client i => exact .inl ho

theorem inv_closeElsewhere (h : Inv s) {fd : Nat} (hfd : fd ∈ s.elsewhere) :
    Inv { s with openFDs := s.openFDs.erase fd, elsewhere := s.elsewhere.erase fd } := by
  refine ⟨?_, h.threads.frame rfl rfl rfl rfl rfl,
    h.phases.frame rfl rfl rfl rfl (fun _ => rfl) (List.Subset.refl _) fun _ => rfl⟩
  refine h.descriptors.release (o := .elsewhere) hfd ?_ rfl rfl rfl
  intro o x ho
  cases o with
  | elsewhere =>
    obtain ⟨hne, hx⟩ := Finset.mem_erase.mp ho
    exact ⟨hx, fun heq => hne heq.2⟩
  | server | acceptor | client i => exact ⟨ho, by simp⟩

theorem inv_step {l : Label} (h : Inv s) (hassumed : assumed s l) (hstep : step s l = some s') :
    Inv s' := by
  cases move_of_step hstep with
  | startAgain | startFails => exact h
  | start hrunning hfree => exact inv_start h hrunning hfree
  | acceptor hmove => exact inv_acceptMove h hassumed hmove
  | client hc hmove => exact inv_clientMove h hc hassumed hmove
  | stop hmove => exact inv_stopMove h hmove
  | openElsewhere hfree => exact inv_openElsewhere h hfree
  | closeElsewhere hfd => exact inv_closeElsewhere h hfd

end Moves

/-! ## Runs -/

/-- The descriptor `fd` is open and held by one party, its client thread, which
is running or about to start. -/
def HeldByClient (s : State) (fd : Nat) : Prop :=
  fd ∈ s.openFDs ∧ ∃ o, Lists s o fd ∧ ∀ o', Owns s o' fd ↔ o' = o

/-- The bookkeeping is right: the active list, what `stop` shuts down, what the
cleanup joins, how often a thread is joined, and what is left when `stop` has
returned. -/
structure Bookkept (s : State) : Prop where
  nodup : s.activeClientFDs.Nodup
  active : ∀ fd ∈ s.activeClientFDs, HeldByClient s fd
  shutdown : ∀ fd fds, s.stopping = .shuttingDown (fd :: fds) → HeldByClient s fd
  cleanup : ∀ t ∈ s.acceptor.threadsToJoin, ∃ c,
    s.clients[t.client]? = some c ∧ c.phase ≠ .handling
  once : ∀ (i : Nat) (c : Client), s.clients[i]? = some c →
    c.joins + joinables i s.handles = 1
  stopped : s.running = false →
    s.clientThreads = [] ∧ s.finishedThreadIds = ∅ ∧ s.activeClientFDs = [] ∧
      ∀ c ∈ s.clients, c.joins = 1

theorem bookkept_of_inv {s : State} (h : Inv s) : Bookkept s := by
  have hactive : ∀ fd ∈ s.activeClientFDs, HeldByClient s fd := by
    intro fd hfd
    obtain ⟨o, ho⟩ := (h.descriptors.active fd).mp hfd
    have hown := owns_of_lists ho
    refine ⟨h.descriptors.held.taken hown, o, ho, fun o' => ⟨?_, ?_⟩⟩
    · exact fun ho' => h.descriptors.held.sole ho' hown
    · rintro rfl
      exact hown
  constructor
  · exact h.descriptors.nodup
  · exact hactive
  · intro fd fds hstopping
    exact hactive fd (h.phases.locked _ hstopping List.mem_cons_self)
  · intro t ht
    obtain ⟨c, hc, hmarked⟩ := h.threads.marked t ht
    refine ⟨c, hc, ?_⟩
    intro hphase
    rw [hphase] at hmarked
    exact absurd hmarked (by decide)
  · exact h.threads.once
  · intro hrunning
    obtain ⟨hthreads, hfinished⟩ := h.phases.threads (.inl hrunning)
    refine ⟨hthreads, hfinished, h.phases.fds (.inl hrunning), ?_⟩
    intro c hc
    obtain ⟨i, hi⟩ := List.mem_iff_getElem?.mp hc
    apply h.threads.joined_of_no_handles _ hi
    rw [handles_eq (by rw [h.phases.acceptor (.inl hrunning)]; rfl), hthreads]

/-- In every run of the server in which `accept` returns descriptors that are
not open and no handler closes its session, the bookkeeping is right. -/
theorem bookkeeping (labels : List Label) (s : State)
    (hrun : Runs step (fun s l => assumed s l) init labels s) : Bookkept s :=
  bookkept_of_inv (hrun.invariant (fun _ _ _ h hassumed hstep => inv_step h hassumed hstep)
    inv_init)

/-- The accept thread takes a connection on descriptor `4`, up to the start of
its client thread with the id `7`; `joins` threads are cleaned up. -/
def connect (joins : Nat) : List Label :=
  [.acceptor .check, .acceptor (.poll true), .acceptor (.accept (some 4)),
    .acceptor (.filter true), .acceptor .push, .acceptor .collect] ++
  List.replicate joins (.acceptor .join) ++ [.acceptor (.spawn 7)]

/-- The client thread `i` ends. -/
def disconnect (i : Nat) : List Label :=
  [.client i .handlerReturns, .client i .mark, .client i .removeClientFD,
    .client i .destroySession]

/-- Two connections, the second with the descriptor and the thread id of the
first, and `stop` while the second is served. -/
def reuse : List Label :=
  [.start (some 3)] ++ connect 0 ++ disconnect 0 ++ connect 1 ++
  [.stop .request, .stop .closeServer, .acceptor .check, .stop .joinAccept, .stop .lock,
    .stop .shutdown, .stop .unlock] ++
  disconnect 1 ++
  [.stop .join, .stop .clearThreads, .stop .clearFDs, .stop .finish]

/-- The first thread is joined by the cleanup, the second by `stop`. -/
theorem bookkeeping_reuse : ∃ s, Runs step (fun s l => assumed s l) init reuse s ∧
    s.clients = [⟨7, 4, false, .ended, 1⟩, ⟨7, 4, false, .ended, 1⟩] ∧ Bookkept s := by
  have hexec : (exec (guarded step assumed) init reuse).map State.clients =
      some [⟨7, 4, false, .ended, 1⟩, ⟨7, 4, false, .ended, 1⟩] := by decide
  obtain ⟨s, hs, hclients⟩ := Option.map_eq_some_iff.mp hexec
  have hrun := runs_of_exec_guarded hs
  exact ⟨s, hrun, hclients, bookkeeping _ _ hrun⟩

end OracleMachine.Network.TcpServer
