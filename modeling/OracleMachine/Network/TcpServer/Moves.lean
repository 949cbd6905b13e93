import OracleMachine.Network.TcpServer.Model

/-!
# What a step of the TCP server can do

`Move` has one case for each branch of the step functions of the server, with
the state it leads to.  `move_of_step` is the inversion of `step`: a proof about
all steps is a case analysis over `Move` and does not unfold the step functions.
-/

namespace OracleMachine.Network.TcpServer

variable {s s' : State}

/-- The steps of the accept thread. -/
inductive AcceptMove (s : State) : AcceptStep → State → Prop where
  | check (hacceptor : s.acceptor = .top) :
      AcceptMove s .check { s with acceptor := if s.stopRequested then .exited else .polling }
  | poll {ready : Bool} (hacceptor : s.acceptor = .polling) :
      AcceptMove s (.poll ready) { s with acceptor := if ready then .accepting else .top }
  | accept {fd : Nat} (hacceptor : s.acceptor = .accepting) :
      AcceptMove s (.accept (some fd))
        { s with acceptor := .accepted fd, openFDs := insert fd s.openFDs }
  | failed (hacceptor : s.acceptor = .accepting) :
      AcceptMove s (.accept none) { s with acceptor := if s.stopRequested then .exited else .top }
  | allow {fd : Nat} (hacceptor : s.acceptor = .accepted fd) :
      AcceptMove s (.filter true) { s with acceptor := .admitted fd }
  | reject {fd : Nat} (hacceptor : s.acceptor = .accepted fd) :
      AcceptMove s (.filter false) { s with acceptor := .top, openFDs := s.openFDs.erase fd }
  | push {fd : Nat} (hacceptor : s.acceptor = .admitted fd) (hlock : s.stopping.locksFDs = false) :
      AcceptMove s .push
        { s with acceptor := .listed fd, activeClientFDs := s.activeClientFDs ++ [fd] }
  | collect {fd : Nat} (hacceptor : s.acceptor = .listed fd) :
      AcceptMove s .collect
        { s with
          clientThreads := (collectFinished s.clients s.clientThreads s.finishedThreadIds).1
          acceptor := .joining fd
            (collectFinished s.clients s.clientThreads s.finishedThreadIds).2.1
          finishedThreadIds := (collectFinished s.clients s.clientThreads s.finishedThreadIds).2.2 }
  | join {fd : Nat} {t : Thread} {ts : List Thread} {clients : List Client}
      (hacceptor : s.acceptor = .joining fd (t :: ts)) (hjoin : join s.clients t = some clients) :
      AcceptMove s .join { s with clients, acceptor := .joining fd ts }
  | spawn {fd id : Nat} (hacceptor : s.acceptor = .joining fd [])
      (hid : ¬ ∃ c ∈ s.clients, c.joins = 0 ∧ c.id = id) :
      AcceptMove s (.spawn id)
        { s with
          acceptor := .top
          clients := s.clients ++
            [{ id, fd, sessionOpen := true, phase := .handling, joins := 0 }]
          clientThreads := s.clientThreads ++ [{ client := s.clients.length, joinable := true }] }

/-- The steps of a client thread, which is at `c`. -/
inductive ClientMove (s : State) (i : Nat) (c : Client) : ClientStep → State → Prop where
  | handlerReturns (hphase : c.phase = .handling) :
      ClientMove s i c .handlerReturns
        { s with clients := s.clients.set i { c with phase := .returned } }
  | closeSession (hphase : c.phase = .handling) :
      ClientMove s i c .closeSession (closeSession s i c .handling)
  | mark (hphase : c.phase = .returned) :
      ClientMove s i c .mark
        { s with
          clients := s.clients.set i { c with phase := .marked }
          finishedThreadIds := insert c.id s.finishedThreadIds }
  | removeClientFD (hphase : c.phase = .marked) (hlock : s.stopping.locksFDs = false) :
      ClientMove s i c .removeClientFD
        { s with
          clients := s.clients.set i { c with phase := .removed }
          activeClientFDs := s.activeClientFDs.erase c.fd }
  | destroySession (hphase : c.phase = .removed) :
      ClientMove s i c .destroySession (closeSession s i c .ended)

/-- The steps of `stop`. -/
inductive StopMove (s : State) : StopStep → State → Prop where
  | request (hstopping : s.stopping = .no) (hrunning : s.running = true) :
      StopMove s .request { s with stopRequested := true, stopping := .requested }
  | requestAgain (hstopping : s.stopping = .no) (hrunning : s.running = false) :
      StopMove s .request s
  | closeServer {fd : Nat} (hstopping : s.stopping = .requested) (hserver : s.serverFD = some fd) :
      StopMove s .closeServer
        { s with serverFD := none, openFDs := s.openFDs.erase fd, stopping := .closed }
  | noServer (hstopping : s.stopping = .requested) (hserver : s.serverFD = none) :
      StopMove s .closeServer { s with stopping := .closed }
  | joinAccept (hstopping : s.stopping = .closed) (hacceptor : s.acceptor = .exited) :
      StopMove s .joinAccept { s with acceptor := .absent, stopping := .acceptJoined }
  | lock (hstopping : s.stopping = .acceptJoined) :
      StopMove s .lock { s with stopping := .shuttingDown s.activeClientFDs }
  | shutdown {fd : Nat} {fds : List Nat} (hstopping : s.stopping = .shuttingDown (fd :: fds)) :
      StopMove s .shutdown { s with stopping := .shuttingDown fds }
  | unlock (hstopping : s.stopping = .shuttingDown []) :
      StopMove s .unlock { s with stopping := .joining 0 }
  | join {next : Nat} {t : Thread} {clients : List Client} (hstopping : s.stopping = .joining next)
      (hthread : s.clientThreads[next]? = some t) (hjoin : join s.clients t = some clients) :
      StopMove s .join
        { s with
          clients
          clientThreads := s.clientThreads.set next { t with joinable := false }
          stopping := .joining (next + 1) }
  | clearThreads (hstopping : s.stopping = .joining s.clientThreads.length) :
      StopMove s .clearThreads
        { s with clientThreads := [], finishedThreadIds := ∅, stopping := .threadsCleared }
  | clearFDs (hstopping : s.stopping = .threadsCleared) :
      StopMove s .clearFDs { s with activeClientFDs := [], stopping := .fdsCleared }
  | finish (hstopping : s.stopping = .fdsCleared) :
      StopMove s .finish { s with running := false, stopping := .no }

/-- The steps of the server and of the process around it. -/
inductive Move (s : State) : Label → State → Prop where
  | startAgain {fd : Option Nat} (hrunning : s.running = true) : Move s (.start fd) s
  | startFails (hrunning : s.running = false) : Move s (.start none) s
  | start {fd : Nat} (hrunning : s.running = false) (hfree : fd ∉ s.openFDs) :
      Move s (.start (some fd))
        { s with
          running := true
          stopRequested := false
          serverFD := some fd
          acceptor := .top
          openFDs := insert fd s.openFDs }
  | acceptor {a : AcceptStep} {s' : State} (move : AcceptMove s a s') : Move s (.acceptor a) s'
  | client {i : Nat} {c : Client} {a : ClientStep} {s' : State} (hc : s.clients[i]? = some c)
      (move : ClientMove s i c a s') : Move s (.client i a) s'
  | stop {a : StopStep} {s' : State} (move : StopMove s a s') : Move s (.stop a) s'
  | openElsewhere {fd : Nat} (hfree : fd ∉ s.openFDs) :
      Move s (.openElsewhere fd)
        { s with openFDs := insert fd s.openFDs, elsewhere := insert fd s.elsewhere }
  | closeElsewhere {fd : Nat} (hfd : fd ∈ s.elsewhere) :
      Move s (.closeElsewhere fd)
        { s with openFDs := s.openFDs.erase fd, elsewhere := s.elsewhere.erase fd }

/-! ## The inversion of the step functions -/

theorem move_of_acceptStep {a : AcceptStep} (h : acceptStep s a = some s') : AcceptMove s a s' := by
  cases a with
  | check =>
    rw [acceptStep, Option.ite_none_right_eq_some] at h
    exact Option.some.inj h.2 ▸ .check h.1
  | poll ready =>
    rw [acceptStep, Option.ite_none_right_eq_some] at h
    exact Option.some.inj h.2 ▸ .poll h.1
  | accept fd =>
    cases fd with
    | some fd =>
      rw [acceptStep, Option.ite_none_right_eq_some] at h
      exact Option.some.inj h.2 ▸ .accept h.1
    | none =>
      rw [acceptStep, Option.ite_none_right_eq_some] at h
      exact Option.some.inj h.2 ▸ .failed h.1
  | filter allowed =>
    rw [acceptStep] at h
    split at h
    · rename_i fd hacceptor
      cases allowed with
      | true => exact Option.some.inj h ▸ .allow hacceptor
      | false => exact Option.some.inj h ▸ .reject hacceptor
    · simp at h
  | push =>
    rw [acceptStep] at h
    split at h
    · rename_i fd hacceptor
      rw [Option.ite_none_left_eq_some] at h
      exact Option.some.inj h.2 ▸ .push hacceptor (by simpa using h.1)
    · simp at h
  | collect =>
    rw [acceptStep] at h
    split at h
    · rename_i fd hacceptor
      exact Option.some.inj h ▸ .collect hacceptor
    · simp at h
  | join =>
    rw [acceptStep] at h
    split at h
    · rename_i fd t ts hacceptor
      obtain ⟨clients, hjoin, rfl⟩ := Option.map_eq_some_iff.mp h
      exact .join hacceptor hjoin
    · simp at h
  | spawn id =>
    rw [acceptStep] at h
    split at h
    · rename_i fd hacceptor
      rw [Option.ite_none_left_eq_some] at h
      exact Option.some.inj h.2 ▸ .spawn hacceptor h.1
    · simp at h

theorem move_of_clientStep {i : Nat} {c : Client} {a : ClientStep}
    (h : clientStep s i c a = some s') : ClientMove s i c a s' := by
  cases a with
  | handlerReturns =>
    rw [clientStep, Option.ite_none_right_eq_some] at h
    exact Option.some.inj h.2 ▸ .handlerReturns h.1
  | closeSession =>
    rw [clientStep, Option.ite_none_right_eq_some] at h
    exact Option.some.inj h.2 ▸ .closeSession h.1
  | mark =>
    rw [clientStep, Option.ite_none_right_eq_some] at h
    exact Option.some.inj h.2 ▸ .mark h.1
  | removeClientFD =>
    rw [clientStep, Option.ite_none_right_eq_some, Option.ite_none_left_eq_some] at h
    exact Option.some.inj h.2.2 ▸ .removeClientFD h.1 (by simpa using h.2.1)
  | destroySession =>
    rw [clientStep, Option.ite_none_right_eq_some] at h
    exact Option.some.inj h.2 ▸ .destroySession h.1

theorem move_of_stopStep {a : StopStep} (h : stopStep s a = some s') : StopMove s a s' := by
  cases a with
  | request =>
    rw [stopStep, Option.ite_none_right_eq_some] at h
    obtain ⟨hstopping, h⟩ := h
    split at h
    · rename_i hrunning
      exact Option.some.inj h ▸ .request hstopping hrunning
    · rename_i hrunning
      exact Option.some.inj h ▸ .requestAgain hstopping (by simpa using hrunning)
  | closeServer =>
    rw [stopStep, Option.ite_none_right_eq_some] at h
    obtain ⟨hstopping, h⟩ := h
    split at h
    · rename_i fd hserver
      exact Option.some.inj h ▸ .closeServer hstopping hserver
    · rename_i hserver
      exact Option.some.inj h ▸ .noServer hstopping hserver
  | joinAccept =>
    rw [stopStep, Option.ite_none_right_eq_some] at h
    exact Option.some.inj h.2 ▸ .joinAccept h.1.1 h.1.2
  | lock =>
    rw [stopStep, Option.ite_none_right_eq_some] at h
    exact Option.some.inj h.2 ▸ .lock h.1
  | shutdown =>
    rw [stopStep] at h
    split at h
    · rename_i fd fds hstopping
      exact Option.some.inj h ▸ .shutdown hstopping
    · simp at h
  | unlock =>
    rw [stopStep, Option.ite_none_right_eq_some] at h
    exact Option.some.inj h.2 ▸ .unlock h.1
  | join =>
    rw [stopStep] at h
    split at h
    · rename_i next hstopping
      obtain ⟨t, hthread, h⟩ := Option.bind_eq_some_iff.mp h
      obtain ⟨clients, hjoin, rfl⟩ := Option.map_eq_some_iff.mp h
      exact .join hstopping hthread hjoin
    · simp at h
  | clearThreads =>
    rw [stopStep, Option.ite_none_right_eq_some] at h
    exact Option.some.inj h.2 ▸ .clearThreads h.1
  | clearFDs =>
    rw [stopStep, Option.ite_none_right_eq_some] at h
    exact Option.some.inj h.2 ▸ .clearFDs h.1
  | finish =>
    rw [stopStep, Option.ite_none_right_eq_some] at h
    exact Option.some.inj h.2 ▸ .finish h.1

theorem move_of_start {fd : Option Nat} (h : start s fd = some s') : Move s (.start fd) s' := by
  unfold start at h
  cases hrunning : s.running with
  | true =>
    rw [hrunning, if_pos rfl] at h
    exact Option.some.inj h ▸ .startAgain hrunning
  | false =>
    rw [hrunning, if_neg (by decide)] at h
    cases fd with
    | none => exact Option.some.inj h ▸ .startFails hrunning
    | some fd =>
      rw [Option.ite_none_left_eq_some] at h
      exact Option.some.inj h.2 ▸ .start hrunning h.1

/-- A step that fires is one of the cases of `Move`. -/
theorem move_of_step {l : Label} (h : step s l = some s') : Move s l s' := by
  cases l with
  | start fd => exact move_of_start h
  | acceptor a => exact .acceptor (move_of_acceptStep h)
  | client i a =>
    obtain ⟨c, hc, h⟩ := Option.bind_eq_some_iff.mp h
    exact .client hc (move_of_clientStep h)
  | stop a => exact .stop (move_of_stopStep h)
  | openElsewhere fd =>
    rw [step, Option.ite_none_left_eq_some] at h
    exact Option.some.inj h.2 ▸ .openElsewhere h.1
  | closeElsewhere fd =>
    rw [step, Option.ite_none_right_eq_some] at h
    exact Option.some.inj h.2 ▸ .closeElsewhere h.1

end OracleMachine.Network.TcpServer
