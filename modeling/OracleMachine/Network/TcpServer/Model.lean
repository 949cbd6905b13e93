import Mathlib.Data.Finset.Basic
import Mathlib.Data.List.Count

/-!
# The threads of the TCP server

`TcpServer` of `libs/om_network` accepts connections on one thread and serves
each of them on a thread of its own.  It keeps three collections: the handles
of the client threads, the ids of those that are finished, and the descriptors
of the active clients.  This module is the step machine of the threads
involved, with one label for each piece of the source that runs under a lock
or that another thread can observe:

* the accept thread polls, accepts, filters, lists the descriptor, collects the
  finished threads under `_threadsMutex`, joins them one by one, and starts the
  client thread;
* a client thread runs the session handler, marks itself finished, takes its
  descriptor off the list, and closes it in the destructor of its `Session`;
* `stop` closes the server socket, joins the accept thread, shuts the listed
  descriptors down under `_clientFDsMutex`, joins the client threads, and
  clears the collections;
* the rest of the process opens and closes descriptors of its own.

The kernel's table of open descriptors is part of the state: closing a number
frees it, whoever holds it.  Numbers of descriptors and thread ids are reused.
A thread id is free again once its thread is joined, as for `std::thread::id`.

`Owns` says who holds which descriptor, `Lists` who stands for an entry of the
active list.  `assumed` is the guard of the runs: `accept` returns a descriptor
that is not open, and no handler closes its session.

Socket options, addresses and the duration of a session are left out, and
`shutdown` changes nothing here: what a handler does after it is the
environment's choice.
-/

namespace OracleMachine.Network.TcpServer

/-! ## The state -/

/-- How far a client thread is: in `handleSession`, back from it, marked as
finished, taken off the active list, or at its end. -/
inductive ClientPhase where
  | handling
  | returned
  | marked
  | removed
  | ended
  deriving DecidableEq

/-- A client thread: its id, the descriptor it was started with, whether its
`Session` still holds it, and how often the thread was joined. -/
structure Client where
  id : Nat
  fd : Nat
  sessionOpen : Bool
  phase : ClientPhase
  joins : Nat
  deriving DecidableEq

/-- A `std::thread`: the client thread it stands for, and `joinable()`. -/
structure Thread where
  client : Nat
  joinable : Bool
  deriving DecidableEq

/-- Where the accept thread is: not started, at the loop condition, in `poll`,
before `accept`, before the filter, before the push, before the cleanup, in
the joins of the cleanup with what is left to join, or at its end. -/
inductive Acceptor where
  | absent
  | top
  | polling
  | accepting
  | accepted (fd : Nat)
  | admitted (fd : Nat)
  | listed (fd : Nat)
  | joining (fd : Nat) (threadsToJoin : List Thread)
  | exited
  deriving DecidableEq

/-- How far `stop` is.  `shuttingDown` holds `_clientFDsMutex` and has the rest
of the descriptors, `joining` the index of the next thread. -/
inductive Stopping where
  | no
  | requested
  | closed
  | acceptJoined
  | shuttingDown (fds : List Nat)
  | joining (next : Nat)
  | threadsCleared
  | fdsCleared
  deriving DecidableEq

/-- The server, the threads it ever started, the kernel's open descriptors and
those that the rest of the process holds.  A client thread is known by its
index in `clients`. -/
structure State where
  running : Bool
  stopRequested : Bool
  serverFD : Option Nat
  acceptor : Acceptor
  stopping : Stopping
  clientThreads : List Thread
  finishedThreadIds : Finset Nat
  activeClientFDs : List Nat
  clients : List Client
  openFDs : Finset Nat
  elsewhere : Finset Nat
  deriving DecidableEq

/-- A server that was just constructed. -/
def init : State where
  running := false
  stopRequested := false
  serverFD := none
  acceptor := .absent
  stopping := .no
  clientThreads := []
  finishedThreadIds := ∅
  activeClientFDs := []
  clients := []
  openFDs := ∅
  elsewhere := ∅

/-! ## The steps -/

/-- The steps of the accept thread, with what the system calls answer. -/
inductive AcceptStep where
  | check
  | poll (ready : Bool)
  | accept (fd : Option Nat)
  | filter (allowed : Bool)
  | push
  | collect
  | join
  | spawn (id : Nat)
  deriving DecidableEq

/-- The steps of a client thread.  `closeSession` is a handler that closes its
session itself. -/
inductive ClientStep where
  | handlerReturns
  | closeSession
  | mark
  | removeClientFD
  | destroySession
  deriving DecidableEq

/-- The steps of `stop`. -/
inductive StopStep where
  | request
  | closeServer
  | joinAccept
  | lock
  | shutdown
  | unlock
  | join
  | clearThreads
  | clearFDs
  | finish
  deriving DecidableEq

/-- A step: `start` with the listening socket it gets, a step of the accept
thread, of a client thread, of `stop`, or of the rest of the process. -/
inductive Label where
  | start (fd : Option Nat)
  | acceptor (a : AcceptStep)
  | client (i : Nat) (a : ClientStep)
  | stop (a : StopStep)
  | openElsewhere (fd : Nat)
  | closeElsewhere (fd : Nat)
  deriving DecidableEq

/-- `stop` holds `_clientFDsMutex` over several steps. -/
def Stopping.locksFDs : Stopping → Bool
  | .shuttingDown _ => true
  | _ => false

/-- `get_id()`: a thread that is not joinable has no id. -/
def getId (clients : List Client) (t : Thread) : Option Nat :=
  if t.joinable then clients[t.client]?.map Client.id else none

/-- The loop of `cleanupFinishedThreads` under the lock: the threads that stay,
`threadsToJoin`, and the ids that stay. -/
def collectFinished (clients : List Client) :
    List Thread → Finset Nat → List Thread × List Thread × Finset Nat
  | [], ids => ([], [], ids)
  | t :: ts, ids =>
    match (getId clients t).filter (· ∈ ids) with
    | some id =>
      let rest := collectFinished clients ts (ids.erase id)
      (rest.1, t :: rest.2.1, rest.2.2)
    | none =>
      let rest := collectFinished clients ts ids
      (t :: rest.1, rest.2.1, rest.2.2)

/-- `if (t.joinable()) t.join();`, which waits until the thread has ended. -/
def join (clients : List Client) (t : Thread) : Option (List Client) :=
  if t.joinable then
    clients[t.client]?.bind fun c =>
      if c.phase = .ended then some (clients.set t.client { c with joins := c.joins + 1 })
      else none
  else some clients

/-- `start`.  `none` is a failure, after which its socket is closed again. -/
def start (s : State) (fd : Option Nat) : Option State :=
  if s.running then some s
  else
    match fd with
    | none => some s
    | some fd =>
      if fd ∈ s.openFDs then none
      else
        some { s with
          running := true
          stopRequested := false
          serverFD := some fd
          acceptor := .top
          openFDs := insert fd s.openFDs }

/-- A step of `acceptLoop` and of `cleanupFinishedThreads`. -/
def acceptStep (s : State) : AcceptStep → Option State
  | .check =>
    if s.acceptor = .top then
      some { s with acceptor := if s.stopRequested then .exited else .polling }
    else none
  | .poll ready =>
    if s.acceptor = .polling then
      some { s with acceptor := if ready then .accepting else .top }
    else none
  | .accept fd =>
    if s.acceptor = .accepting then
      match fd with
      | some fd => some { s with acceptor := .accepted fd, openFDs := insert fd s.openFDs }
      | none => some { s with acceptor := if s.stopRequested then .exited else .top }
    else none
  | .filter allowed =>
    match s.acceptor with
    | .accepted fd =>
      if allowed then some { s with acceptor := .admitted fd }
      else some { s with acceptor := .top, openFDs := s.openFDs.erase fd }
    | _ => none
  | .push =>
    match s.acceptor with
    | .admitted fd =>
      if s.stopping.locksFDs then none
      else
        some { s with acceptor := .listed fd, activeClientFDs := s.activeClientFDs ++ [fd] }
    | _ => none
  | .collect =>
    match s.acceptor with
    | .listed fd =>
      let collected := collectFinished s.clients s.clientThreads s.finishedThreadIds
      some { s with
        clientThreads := collected.1
        acceptor := .joining fd collected.2.1
        finishedThreadIds := collected.2.2 }
    | _ => none
  | .join =>
    match s.acceptor with
    | .joining fd (t :: ts) =>
      (join s.clients t).map fun clients => { s with clients, acceptor := .joining fd ts }
    | _ => none
  | .spawn id =>
    match s.acceptor with
    | .joining fd [] =>
      -- the id of a new thread is not that of a thread that was not joined
      if ∃ c ∈ s.clients, c.joins = 0 ∧ c.id = id then none
      else
        some { s with
          acceptor := .top
          clients := s.clients ++
            [{ id, fd, sessionOpen := true, phase := .handling, joins := 0 }]
          clientThreads := s.clientThreads ++ [{ client := s.clients.length, joinable := true }] }
    | _ => none

/-- `Session::close` of the client thread `i`, which is at `c` and goes on at
`phase`. -/
def closeSession (s : State) (i : Nat) (c : Client) (phase : ClientPhase) : State :=
  { s with
    clients := s.clients.set i { c with sessionOpen := false, phase }
    openFDs := if c.sessionOpen then s.openFDs.erase c.fd else s.openFDs }

/-- A step of `clientThread` number `i`, which is at `c`. -/
def clientStep (s : State) (i : Nat) (c : Client) : ClientStep → Option State
  | .handlerReturns =>
    if c.phase = .handling then
      some { s with clients := s.clients.set i { c with phase := .returned } }
    else none
  | .closeSession =>
    if c.phase = .handling then some (closeSession s i c .handling) else none
  | .mark =>
    if c.phase = .returned then
      some { s with
        clients := s.clients.set i { c with phase := .marked }
        finishedThreadIds := insert c.id s.finishedThreadIds }
    else none
  | .removeClientFD =>
    if c.phase = .marked then
      if s.stopping.locksFDs then none
      else
        some { s with
          clients := s.clients.set i { c with phase := .removed }
          activeClientFDs := s.activeClientFDs.erase c.fd }
    else none
  | .destroySession =>
    if c.phase = .removed then some (closeSession s i c .ended) else none

/-- A step of `stop`. -/
def stopStep (s : State) : StopStep → Option State
  | .request =>
    if s.stopping = .no then
      if s.running then some { s with stopRequested := true, stopping := .requested }
      else some s
    else none
  | .closeServer =>
    if s.stopping = .requested then
      match s.serverFD with
      | some fd =>
        some { s with serverFD := none, openFDs := s.openFDs.erase fd, stopping := .closed }
      | none => some { s with stopping := .closed }
    else none
  | .joinAccept =>
    if s.stopping = .closed ∧ s.acceptor = .exited then
      some { s with acceptor := .absent, stopping := .acceptJoined }
    else none
  | .lock =>
    if s.stopping = .acceptJoined then
      some { s with stopping := .shuttingDown s.activeClientFDs }
    else none
  | .shutdown =>
    match s.stopping with
    | .shuttingDown (_ :: fds) => some { s with stopping := .shuttingDown fds }
    | _ => none
  | .unlock =>
    if s.stopping = .shuttingDown [] then some { s with stopping := .joining 0 } else none
  | .join =>
    match s.stopping with
    | .joining next =>
      s.clientThreads[next]?.bind fun t =>
        (join s.clients t).map fun clients =>
          { s with
            clients
            clientThreads := s.clientThreads.set next { t with joinable := false }
            stopping := .joining (next + 1) }
    | _ => none
  | .clearThreads =>
    if s.stopping = .joining s.clientThreads.length then
      some { s with clientThreads := [], finishedThreadIds := ∅, stopping := .threadsCleared }
    else none
  | .clearFDs =>
    if s.stopping = .threadsCleared then
      some { s with activeClientFDs := [], stopping := .fdsCleared }
    else none
  | .finish =>
    if s.stopping = .fdsCleared then some { s with running := false, stopping := .no }
    else none

/-- One step of the server and of the process around it. -/
def step (s : State) : Label → Option State
  | .start fd => start s fd
  | .acceptor a => acceptStep s a
  | .client i a => s.clients[i]?.bind fun c => clientStep s i c a
  | .stop a => stopStep s a
  | .openElsewhere fd =>
    if fd ∈ s.openFDs then none
    else some { s with openFDs := insert fd s.openFDs, elsewhere := insert fd s.elsewhere }
  | .closeElsewhere fd =>
    if fd ∈ s.elsewhere then
      some { s with openFDs := s.openFDs.erase fd, elsewhere := s.elsewhere.erase fd }
    else none

/-- The guard: `accept` returns a descriptor that is not open, and no handler
closes its session. -/
def assumed (s : State) : Label → Bool
  | .acceptor (.accept (some fd)) => fd ∉ s.openFDs
  | .client _ .closeSession => false
  | _ => true

/-! ## Who holds what -/

/-- The parties that hold descriptors. -/
inductive Owner where
  | server
  | acceptor
  | client (i : Nat)
  | elsewhere
  deriving DecidableEq

/-- The descriptor that the accept thread has accepted and not passed on. -/
def Acceptor.owned : Acceptor → Option Nat
  | .accepted fd | .admitted fd | .listed fd | .joining fd _ => some fd
  | .absent | .top | .polling | .accepting | .exited => none

/-- The descriptor that the accept thread has listed for the client thread it
is about to start. -/
def Acceptor.lists : Acceptor → Option Nat
  | .listed fd | .joining fd _ => some fd
  | .absent | .top | .polling | .accepting | .accepted _ | .admitted _ | .exited => none

/-- The threads that the cleanup still has to join. -/
def Acceptor.threadsToJoin : Acceptor → List Thread
  | .joining _ ts => ts
  | .absent | .top | .polling | .accepting | .accepted _ | .admitted _ | .listed _ | .exited => []

/-- The descriptor that the session of a client thread holds. -/
def Client.owned (c : Client) : Option Nat := if c.sessionOpen then some c.fd else none

/-- The client thread has not taken its descriptor off the list. -/
def ClientPhase.isListed : ClientPhase → Bool
  | .handling | .returned | .marked => true
  | .removed | .ended => false

/-- The client thread has marked itself finished. -/
def ClientPhase.isMarked : ClientPhase → Bool
  | .handling | .returned => false
  | .marked | .removed | .ended => true

/-- The descriptor of a client thread that holds it and has not taken it off
the list. -/
def Client.lists (c : Client) : Option Nat :=
  if c.sessionOpen && c.phase.isListed then some c.fd else none

/-- The id of a client thread that was not joined. -/
def Client.heldId (c : Client) : Option Nat := if c.joins = 0 then some c.id else none

/-- `o` holds the descriptor `fd`. -/
def Owns (s : State) : Owner → Nat → Prop
  | .server, fd => s.serverFD = some fd
  | .acceptor, fd => s.acceptor.owned = some fd
  | .client i, fd => s.clients[i]?.bind Client.owned = some fd
  | .elsewhere, fd => fd ∈ s.elsewhere

/-- `o` is the client thread of `fd`: running, or about to be started by the
accept thread. -/
def Lists (s : State) : Owner → Nat → Prop
  | .acceptor, fd => s.acceptor.lists = some fd
  | .client i, fd => s.clients[i]?.bind Client.lists = some fd
  | .server, _ | .elsewhere, _ => False

/-- The client thread `i` has the id `id` and was not joined. -/
def HoldsId (s : State) (i id : Nat) : Prop := s.clients[i]?.bind Client.heldId = some id

/-- All handles of client threads. -/
def State.handles (s : State) : List Thread := s.clientThreads ++ s.acceptor.threadsToJoin

/-- The handles through which the client thread `i` can still be joined. -/
def joinables (i : Nat) (ts : List Thread) : Nat :=
  ts.countP fun t => t.joinable && t.client == i

/-! ## What `join` and the cleanup do -/

/-- What `join` does to the client threads, and what it has waited for. -/
theorem join_spec {clients clients' : List Client} {t : Thread}
    (h : join clients t = some clients') :
    (∀ j : Nat, clients'[j]? =
      clients[j]?.map fun d => { d with joins := d.joins + joinables j [t] }) ∧
    ∀ d, clients[t.client]? = some d → t.joinable → d.phase = .ended := by
  rw [join] at h
  split at h
  · rename_i hjoinable
    obtain ⟨c, hc, h⟩ := Option.bind_eq_some_iff.mp h
    split at h
    · rename_i hended
      obtain rfl := Option.some.inj h
      have hi := (List.getElem?_eq_some_iff.mp hc).1
      constructor
      · intro j
        by_cases hj : j = t.client
        · subst hj
          simp [List.getElem?_set_self hi, hc, joinables, hjoinable]
        · rw [List.getElem?_set_ne (Ne.symm hj)]
          simp [joinables, Ne.symm hj]
      · intro d hd _
        rw [← Option.some.inj (hc.symm.trans hd)]
        exact hended
    · simp at h
  · rename_i hjoinable
    obtain rfl := Option.some.inj h
    constructor
    · intro j
      simp [joinables, hjoinable]
    · exact fun _ _ h => absurd h hjoinable

/-- The locked loop of the cleanup splits the handles, takes those whose id is
marked, and drops their ids. -/
theorem collectFinished_spec (clients : List Client) (ts : List Thread) (ids : Finset Nat) :
    ((collectFinished clients ts ids).1 ++ (collectFinished clients ts ids).2.1).Perm ts ∧
    (collectFinished clients ts ids).2.2 ⊆ ids ∧
    ∀ t ∈ (collectFinished clients ts ids).2.1, ∃ id ∈ ids,
      getId clients t = some id ∧ id ∉ (collectFinished clients ts ids).2.2 := by
  induction ts generalizing ids with
  | nil => simp [collectFinished]
  | cons t ts ih =>
    rw [collectFinished]
    split
    · rename_i id hid
      obtain ⟨hget, hmem⟩ := Option.filter_eq_some_iff.mp hid
      rw [decide_eq_true_eq] at hmem
      obtain ⟨hperm, hsub, hids⟩ := ih (ids.erase id)
      refine ⟨?_, fun x hx => Finset.mem_of_mem_erase (hsub hx), ?_⟩
      · exact List.perm_middle.trans (hperm.cons t)
      · intro u hu
        rcases List.mem_cons.mp hu with rfl | hu
        · exact ⟨id, hmem, hget, fun hrest => Finset.notMem_erase id ids (hsub hrest)⟩
        · obtain ⟨x, hx, hgetx, hnot⟩ := hids u hu
          exact ⟨x, Finset.mem_of_mem_erase hx, hgetx, hnot⟩
    · obtain ⟨hperm, hsub, hids⟩ := ih ids
      exact ⟨hperm.cons t, hsub, hids⟩

theorem getId_eq_some {clients : List Client} {t : Thread} {id : Nat}
    (h : getId clients t = some id) :
    t.joinable ∧ ∃ c, clients[t.client]? = some c ∧ c.id = id := by
  rw [getId] at h
  split at h
  · rename_i hjoinable
    obtain ⟨c, hc, hid⟩ := Option.map_eq_some_iff.mp h
    exact ⟨hjoinable, c, hc, hid⟩
  · simp at h

end OracleMachine.Network.TcpServer
