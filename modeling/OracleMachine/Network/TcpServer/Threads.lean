import OracleMachine.Lib.Entries
import OracleMachine.Lib.Ownership
import OracleMachine.Network.TcpServer.Model

/-!
# The client threads of the TCP server

A client thread is joined by the cleanup or by `stop`, through its handle.
`Threads` is the part of the invariant about threads: the joins of a thread and
the handles through which it can still be joined make one, and the ids that are
marked finished belong to threads that have marked themselves.  Since an id is
reused only after its thread was joined, the cleanup finds by the id the thread
that marked it.

There is one lemma for each kind of step: `Threads.set_phase` and
`Threads.mark` for a client thread that goes on, `Threads.collect`,
`Threads.joined` and `Threads.spawn` for the accept thread, and
`Threads.joined` and `Threads.clear` for `stop`.
-/

namespace OracleMachine.Network.TcpServer

open Lib.Entries Lib.Ownership

/-- The handles of `stop`'s loop that it has already visited. -/
def Stopping.visited : Stopping → Nat
  | .joining next => next
  | .no | .requested | .closed | .acceptJoined | .shuttingDown _ | .threadsCleared
  | .fdsCleared => 0

/-- The threads: each was joined or can be joined through one handle, those
that were joined have ended, only those that have ended have closed their
session, and an id is marked finished by the thread that holds it. -/
structure Threads (s : State) : Prop where
  once : ∀ (i : Nat) (c : Client), s.clients[i]? = some c → c.joins + joinables i s.handles = 1
  known : ∀ t ∈ s.handles, ∃ c, s.clients[t.client]? = some c
  ended : ∀ (i : Nat) (c : Client), s.clients[i]? = some c → c.joins ≠ 0 → c.phase = .ended
  closed : ∀ (i : Nat) (c : Client), s.clients[i]? = some c → c.sessionOpen = false →
    c.phase = .ended
  ids : ∀ {i j id : Nat}, HoldsId s i id → HoldsId s j id → i = j
  joinable : ∀ (j : Nat) (t : Thread), s.clientThreads[j]? = some t →
    t.joinable = decide (s.stopping.visited ≤ j)
  finished : ∀ id ∈ s.finishedThreadIds, ∃ t ∈ s.clientThreads, ∃ c,
    s.clients[t.client]? = some c ∧ c.id = id ∧ c.phase.isMarked
  marked : ∀ t ∈ s.acceptor.threadsToJoin, ∃ c,
    s.clients[t.client]? = some c ∧ c.phase.isMarked

/-- A step that moves no thread. -/
theorem Threads.frame {s s' : State} (h : Threads s) (hclients : s'.clients = s.clients)
    (hthreads : s'.clientThreads = s.clientThreads)
    (hfinished : s'.finishedThreadIds = s.finishedThreadIds)
    (htoJoin : s'.acceptor.threadsToJoin = s.acceptor.threadsToJoin)
    (hvisited : s'.stopping.visited = s.stopping.visited) : Threads s' := by
  have hhandles : s'.handles = s.handles := by rw [State.handles, hthreads, htoJoin]; rfl
  have hids : HoldsId s' = HoldsId s := by funext i id; rw [HoldsId, hclients]; rfl
  constructor
  · rw [hclients, hhandles]; exact h.once
  · rw [hclients, hhandles]; exact h.known
  · rw [hclients]; exact h.ended
  · rw [hclients]; exact h.closed
  · rw [hids]; exact h.ids
  · rw [hthreads, hvisited]; exact h.joinable
  · rw [hfinished, hthreads, hclients]; exact h.finished
  · rw [htoJoin, hclients]; exact h.marked

/-- While the cleanup has nothing to join, the handles are those of the server. -/
theorem handles_eq {s : State} (h : s.acceptor.threadsToJoin = []) :
    s.handles = s.clientThreads := by
  rw [State.handles, h, List.append_nil]

/-- A client thread that has not ended was not joined. -/
theorem Threads.joins_eq_zero {s : State} (h : Threads s) {i : Nat} {c : Client}
    (hc : s.clients[i]? = some c) (hphase : c.phase ≠ .ended) : c.joins = 0 := by
  apply Classical.byContradiction
  exact fun hjoins => hphase (h.ended i c hc hjoins)

/-- A client thread that has not ended has not closed its session. -/
theorem Threads.sessionOpen {s : State} (h : Threads s) {i : Nat} {c : Client}
    (hc : s.clients[i]? = some c) (hphase : c.phase ≠ .ended) : c.sessionOpen = true := by
  cases hsession : c.sessionOpen with
  | true => rfl
  | false => exact absurd (h.closed i c hc hsession) hphase

/-- A client thread goes on. -/
theorem Threads.set_phase {s : State} (h : Threads s) {i : Nat} {c : Client}
    (hc : s.clients[i]? = some c) (hphase : c.phase ≠ .ended) {sessionOpen : Bool}
    {phase : ClientPhase} (hclosed : sessionOpen = false → phase = .ended)
    (hmarked : c.phase.isMarked → phase.isMarked) :
    Threads { s with clients := s.clients.set i { c with sessionOpen, phase } } where
  once := by
    intro j d hd
    rcases getElem?_set_cases hd with ⟨rfl, rfl⟩ | ⟨-, hd⟩
    · exact h.once j c hc
    · exact h.once j d hd
  known := by
    intro t ht
    obtain ⟨d, hd⟩ := h.known t ht
    exact used_set hd i _
  ended := by
    intro j d hd hjoins
    rcases getElem?_set_cases hd with ⟨rfl, rfl⟩ | ⟨-, hd⟩
    · exact absurd (h.joins_eq_zero hc hphase) hjoins
    · exact h.ended j d hd hjoins
  closed := by
    intro j d hd
    rcases getElem?_set_cases hd with ⟨rfl, rfl⟩ | ⟨-, hd⟩
    · exact hclosed
    · exact h.closed j d hd
  ids := by
    have hsame : ∀ k id, HoldsId
        { s with clients := s.clients.set i { c with sessionOpen, phase } } k id =
          HoldsId s k id := by
      intro k id
      refine congrArg (· = some id) (bind_set hc ?_ k)
      rfl
    intro j k id hj hk
    rw [hsame] at hj hk
    exact h.ids hj hk
  joinable := h.joinable
  finished := by
    intro id hid
    obtain ⟨t, ht, d, hd, hdid, hdmarked⟩ := h.finished id hid
    refine ⟨t, ht, exists_getElem?_set hd ⟨hdid, hdmarked⟩ fun hdi => ?_⟩
    obtain rfl : c = d := Option.some.inj (hc.symm.trans hdi)
    exact ⟨hdid, hmarked hdmarked⟩
  marked := by
    intro t ht
    obtain ⟨d, hd, hdmarked⟩ := h.marked t ht
    refine exists_getElem?_set hd hdmarked fun hdi => ?_
    obtain rfl : c = d := Option.some.inj (hc.symm.trans hdi)
    exact hmarked hdmarked

/-- A client thread that was not joined has a handle. -/
theorem Threads.exists_handle {s : State} (h : Threads s) {i : Nat} {c : Client}
    (hc : s.clients[i]? = some c) (hjoins : c.joins = 0) :
    ∃ t ∈ s.handles, t.joinable ∧ t.client = i := by
  have hcount := h.once i c hc
  rw [hjoins, Nat.zero_add] at hcount
  have hpos : 0 < joinables i s.handles := by omega
  obtain ⟨t, ht, hti⟩ := List.countP_pos_iff.mp hpos
  rw [Bool.and_eq_true, beq_iff_eq] at hti
  exact ⟨t, ht, hti⟩

/-- The handle of a client thread that has not marked itself is with the
server, not with the cleanup. -/
theorem Threads.exists_clientThread {s : State} (h : Threads s) {i : Nat} {c : Client}
    (hc : s.clients[i]? = some c) (hphase : c.phase.isMarked = false) :
    ∃ t ∈ s.clientThreads, t.client = i := by
  have hended : c.phase ≠ .ended := by
    intro heq
    rw [heq] at hphase
    exact absurd hphase (by decide)
  obtain ⟨t, ht, -, hti⟩ := h.exists_handle hc (h.joins_eq_zero hc hended)
  rcases List.mem_append.mp ht with ht | ht
  · exact ⟨t, ht, hti⟩
  · obtain ⟨d, hd, hmarked⟩ := h.marked t ht
    rw [hti] at hd
    obtain rfl : c = d := Option.some.inj (hc.symm.trans hd)
    rw [hphase] at hmarked
    exact absurd hmarked (by decide)

/-- A client thread marks itself finished. -/
theorem Threads.mark {s : State} (h : Threads s) {i : Nat} {c : Client}
    (hc : s.clients[i]? = some c) (hphase : c.phase = .returned) :
    Threads { s with
      clients := s.clients.set i { c with phase := .marked }
      finishedThreadIds := insert c.id s.finishedThreadIds } := by
  have hopen := h.sessionOpen hc (by simp [hphase])
  have hnext : Threads { s with clients := s.clients.set i { c with phase := .marked } } :=
    h.set_phase hc (by simp [hphase]) (by simp [hopen]) fun _ => rfl
  obtain ⟨t, ht, rfl⟩ := h.exists_clientThread hc (by rw [hphase]; rfl)
  have hi : t.client < s.clients.length := (List.getElem?_eq_some_iff.mp hc).1
  refine ⟨hnext.once, hnext.known, hnext.ended, hnext.closed, hnext.ids, hnext.joinable, ?_,
    hnext.marked⟩
  intro id hid
  rcases Finset.mem_insert.mp hid with rfl | hid
  · exact ⟨t, ht, { c with phase := .marked }, List.getElem?_set_self hi, rfl, rfl⟩
  · exact hnext.finished id hid

/-- Joining a thread through a handle that the server then gives up, or keeps as
not joinable. -/
theorem Threads.joined {s s' : State} (h : Threads s) {t : Thread}
    (hjoin : join s.clients t = some s'.clients)
    (hcount : ∀ i, joinables i s.handles = joinables i s'.handles + joinables i [t])
    (hhandles : s'.handles.map Thread.client ⊆ s.handles.map Thread.client)
    (hthreads : s'.clientThreads.map Thread.client = s.clientThreads.map Thread.client)
    (hfinished : s'.finishedThreadIds = s.finishedThreadIds)
    (htoJoin : s'.acceptor.threadsToJoin ⊆ s.acceptor.threadsToJoin)
    (hjoinable : ∀ (j : Nat) (t : Thread), s'.clientThreads[j]? = some t →
      t.joinable = decide (s'.stopping.visited ≤ j)) : Threads s' := by
  obtain ⟨hclients, hended⟩ := join_spec hjoin
  have hback : ∀ {j : Nat} {d' : Client}, s'.clients[j]? = some d' →
      ∃ d, s.clients[j]? = some d ∧ d' = { d with joins := d.joins + joinables j [t] } := by
    intro j d' hd'
    rw [hclients, Option.map_eq_some_iff] at hd'
    obtain ⟨d, hd, rfl⟩ := hd'
    exact ⟨d, hd, rfl⟩
  have hforth : ∀ {j : Nat} {d : Client}, s.clients[j]? = some d → d.phase.isMarked →
      ∃ d', s'.clients[j]? = some d' ∧ d'.id = d.id ∧ d'.phase.isMarked := by
    intro j d hd hmarked
    refine ⟨{ d with joins := d.joins + joinables j [t] }, ?_, rfl, hmarked⟩
    rw [hclients, hd]
    rfl
  constructor
  · intro i c hc
    obtain ⟨d, hd, rfl⟩ := hback hc
    have honce := h.once i d hd
    have hi := hcount i
    show d.joins + joinables i [t] + joinables i s'.handles = 1
    omega
  · intro t' ht'
    have hmem := hhandles (List.mem_map_of_mem (f := Thread.client) ht')
    obtain ⟨u, hu, heq⟩ := List.mem_map.mp hmem
    obtain ⟨d, hd⟩ := h.known u hu
    rw [hclients, ← heq, hd]
    exact ⟨_, rfl⟩
  · intro i c hc hjoins
    obtain ⟨d, hd, rfl⟩ := hback hc
    by_cases hold : d.joins = 0
    · -- this is the thread that was joined now
      have hone : joinables i [t] ≠ 0 := by
        intro hzero
        exact hjoins (by simp [hold, hzero])
      simp only [joinables, List.countP_singleton, ne_eq, ite_eq_right_iff, Bool.and_eq_true,
        beq_iff_eq, Nat.one_ne_zero, imp_false, not_not] at hone
      exact hended d (hone.2 ▸ hd) hone.1
    · exact h.ended i d hd hold
  · intro i c hc hsession
    obtain ⟨d, hd, rfl⟩ := hback hc
    exact h.closed i d hd hsession
  · have hids : ∀ {i id : Nat}, HoldsId s' i id → HoldsId s i id := by
      intro i id hi
      obtain ⟨c, hc, hid⟩ := Option.bind_eq_some_iff.mp hi
      obtain ⟨d, hd, rfl⟩ := hback hc
      simp only [Client.heldId, Nat.add_eq_zero_iff, Option.ite_none_right_eq_some] at hid
      apply Option.bind_eq_some_iff.mpr
      exact ⟨d, hd, by simp [Client.heldId, hid.1.1, Option.some.inj hid.2]⟩
    intro i j id hi hj
    exact h.ids (hids hi) (hids hj)
  · exact hjoinable
  · intro id hid
    rw [hfinished] at hid
    obtain ⟨u, hu, d, hd, rfl, hmarked⟩ := h.finished id hid
    have hmem : u.client ∈ s'.clientThreads.map Thread.client := by
      rw [hthreads]
      exact List.mem_map_of_mem hu
    obtain ⟨u', hu', heq⟩ := List.mem_map.mp hmem
    rw [← heq] at hd
    exact ⟨u', hu', hforth hd hmarked⟩
  · intro u hu
    obtain ⟨d, hd, hmarked⟩ := h.marked u (htoJoin hu)
    obtain ⟨d', hd', -, hmarked'⟩ := hforth hd hmarked
    exact ⟨d', hd', hmarked'⟩

/-- Before `stop` comes to its joins, all handles of the server are joinable. -/
theorem Threads.all_joinable {s : State} (h : Threads s) (hvisited : s.stopping.visited = 0)
    {t : Thread} (ht : t ∈ s.clientThreads) : t.joinable = true := by
  obtain ⟨j, hj⟩ := List.mem_iff_getElem?.mp ht
  rw [h.joinable j t hj, hvisited]
  exact decide_eq_true (Nat.zero_le j)

/-- A client thread with a joinable handle holds its id. -/
theorem Threads.holdsId {s : State} (h : Threads s) {t : Thread} (ht : t ∈ s.handles)
    (hjoinable : t.joinable = true) {c : Client} (hc : s.clients[t.client]? = some c) :
    HoldsId s t.client c.id := by
  have honce := h.once t.client c hc
  have hpos : 0 < joinables t.client s.handles :=
    List.countP_pos_iff.mpr ⟨t, ht, by simp [hjoinable]⟩
  have hjoins : c.joins = 0 := by omega
  simp [HoldsId, hc, Client.heldId, hjoins]

/-- The cleanup collects threads that have marked themselves. -/
theorem Threads.collect {s : State} (h : Threads s) {fd : Nat} (hacceptor : s.acceptor = .listed fd)
    (hvisited : s.stopping.visited = 0) :
    Threads { s with
      clientThreads := (collectFinished s.clients s.clientThreads s.finishedThreadIds).1
      acceptor := .joining fd (collectFinished s.clients s.clientThreads s.finishedThreadIds).2.1
      finishedThreadIds :=
        (collectFinished s.clients s.clientThreads s.finishedThreadIds).2.2 } := by
  obtain ⟨hperm, hsub, hids⟩ :=
    collectFinished_spec s.clients s.clientThreads s.finishedThreadIds
  generalize collectFinished s.clients s.clientThreads s.finishedThreadIds = collected at *
  obtain ⟨kept, toJoin, rest⟩ := collected
  have hhandles : s.handles = s.clientThreads := handles_eq (by rw [hacceptor]; rfl)
  have hmem : ∀ {t}, t ∈ kept ∨ t ∈ toJoin → t ∈ s.clientThreads :=
    fun ht => hperm.subset (List.mem_append.mpr ht)
  constructor
  · intro i c hc
    have honce := h.once i c hc
    rw [hhandles, joinables, ← hperm.countP_eq] at honce
    exact honce
  · intro t ht
    exact h.known t (hhandles ▸ hperm.subset ht)
  · exact h.ended
  · exact h.closed
  · exact h.ids
  · intro j t hj
    rw [h.all_joinable hvisited (hmem (.inl (List.mem_of_getElem? hj)))]
    show true = decide (s.stopping.visited ≤ j)
    simp [hvisited]
  · intro id hid
    obtain ⟨t, ht, c, hc, hcid, hmarked⟩ := h.finished id (hsub hid)
    rcases List.mem_append.mp (hperm.mem_iff.mpr ht) with hkept | htaken
    · exact ⟨t, hkept, c, hc, hcid, hmarked⟩
    · -- the id of a thread that was taken is gone
      obtain ⟨x, -, hget, hnot⟩ := hids t htaken
      obtain ⟨-, d, hd, hdid⟩ := getId_eq_some hget
      obtain rfl : c = d := Option.some.inj (hc.symm.trans hd)
      rw [← hdid, hcid] at hnot
      exact absurd hid hnot
  · intro t ht
    -- the thread that marked the id is the one that holds it
    obtain ⟨id, hid, hget, -⟩ := hids t ht
    obtain ⟨hjoinable, c, hc, hcid⟩ := getId_eq_some hget
    obtain ⟨u, hu, d, hd, hdid, hmarked⟩ := h.finished id hid
    have hholds := h.holdsId (hhandles ▸ hmem (.inr ht)) hjoinable hc
    have hholds' := h.holdsId (hhandles ▸ hu) (h.all_joinable hvisited hu) hd
    rw [hcid] at hholds
    rw [hdid] at hholds'
    rw [h.ids hholds' hholds] at hd
    exact ⟨d, hd, hmarked⟩

/-- The id of a new client thread is not held by another. -/
theorem Threads.ids_append {s s' : State} (h : Threads s) {c : Client}
    (hclients : s'.clients = s.clients ++ [c])
    (hid : ¬ ∃ d ∈ s.clients, d.joins = 0 ∧ d.id = c.id) {i j id : Nat} :
    HoldsId s' i id → HoldsId s' j id → i = j := by
  have hfree : ¬ ∃ k, HoldsId s k c.id := by
    rintro ⟨k, hk⟩
    obtain ⟨d, hd, hheld⟩ := Option.bind_eq_some_iff.mp hk
    rw [Client.heldId, Option.ite_none_right_eq_some] at hheld
    exact hid ⟨d, List.mem_of_getElem? hd, hheld.1, Option.some.inj hheld.2⟩
  have hheld : Exclusive (HoldsId s) fun id => ∃ k, HoldsId s k id :=
    ⟨fun hk => ⟨_, hk⟩, h.ids⟩
  have hnext : Exclusive (HoldsId s') fun _ => True := by
    refine hheld.acquire (o := s.clients.length) hfree ?_ trivial fun _ _ => trivial
    intro k x hk
    rw [HoldsId, hclients] at hk
    rcases bind_concat.mp hk with hk | ⟨hlen, hk⟩
    · exact .inl hk
    · rw [Client.heldId, Option.ite_none_right_eq_some] at hk
      exact .inr ⟨hlen, (Option.some.inj hk.2).symm⟩
  exact hnext.sole

/-- A new client thread. -/
theorem Threads.spawn {s : State} (h : Threads s) {fd id : Nat}
    (hacceptor : s.acceptor = .joining fd []) (hvisited : s.stopping.visited = 0)
    (hid : ¬ ∃ c ∈ s.clients, c.joins = 0 ∧ c.id = id) :
    Threads { s with
      acceptor := .top
      clients := s.clients ++ [{ id, fd, sessionOpen := true, phase := .handling, joins := 0 }]
      clientThreads := s.clientThreads ++ [{ client := s.clients.length, joinable := true }] } := by
  have hhandles : s.handles = s.clientThreads := handles_eq (by rw [hacceptor]; rfl)
  have hlt : ∀ t ∈ s.clientThreads, t.client < s.clients.length := by
    intro t ht
    obtain ⟨c, hc⟩ := h.known t (hhandles ▸ ht)
    exact (List.getElem?_eq_some_iff.mp hc).1
  constructor
  · intro i c hc
    simp only [State.handles, Acceptor.threadsToJoin, List.append_nil, joinables,
      List.countP_append, List.countP_singleton]
    rcases getElem?_concat.mp hc with hc | ⟨rfl, rfl⟩
    · have honce := h.once i c hc
      have hi := (List.getElem?_eq_some_iff.mp hc).1
      rw [hhandles, joinables] at honce
      simp [honce, Nat.ne_of_gt hi]
    · have hzero : s.clientThreads.countP
          (fun t => t.joinable && t.client == s.clients.length) = 0 := by
        rw [List.countP_eq_zero]
        intro t ht
        have hne := Nat.ne_of_lt (hlt t ht)
        simp [hne]
      simp [hzero]
  · intro t ht
    simp only [State.handles, Acceptor.threadsToJoin, List.append_nil, List.mem_append,
      List.mem_singleton] at ht
    rcases ht with ht | rfl
    · obtain ⟨c, hc⟩ := h.known t (hhandles ▸ ht)
      exact ⟨c, getElem?_concat.mpr (.inl hc)⟩
    · simp
  · intro i c hc hjoins
    rcases getElem?_concat.mp hc with hc | ⟨-, rfl⟩
    · exact h.ended i c hc hjoins
    · exact absurd rfl hjoins
  · intro i c hc hsession
    rcases getElem?_concat.mp hc with hc | ⟨-, rfl⟩
    · exact h.closed i c hc hsession
    · simp at hsession
  · intro i j x
    exact h.ids_append rfl hid
  · intro j t ht
    show t.joinable = decide (s.stopping.visited ≤ j)
    rw [hvisited, decide_eq_true (Nat.zero_le j)]
    rcases List.mem_append.mp (List.mem_of_getElem? ht) with ht | ht
    · exact h.all_joinable hvisited ht
    · rw [List.mem_singleton.mp ht]
  · intro x hx
    obtain ⟨t, ht, c, hc, hcid, hmarked⟩ := h.finished x hx
    exact ⟨t, List.mem_append_left _ ht, c, getElem?_concat.mpr (.inl hc), hcid, hmarked⟩
  · intro t ht
    simp [Acceptor.threadsToJoin] at ht

/-- `stop` has joined every thread, and gives the handles up. -/
theorem Threads.clear {s : State} (h : Threads s) (hacceptor : s.acceptor = .absent)
    (hstopping : s.stopping = .joining s.clientThreads.length) :
    Threads { s with
      clientThreads := [], finishedThreadIds := ∅, stopping := .threadsCleared } := by
  have hzero : ∀ i, joinables i s.handles = 0 := by
    intro i
    rw [handles_eq (by rw [hacceptor]; rfl), joinables, List.countP_eq_zero]
    intro t ht
    obtain ⟨j, hj⟩ := List.mem_iff_getElem?.mp ht
    have hlt := (List.getElem?_eq_some_iff.mp hj).1
    rw [h.joinable j t hj, hstopping]
    simp [Stopping.visited, Nat.not_le.mpr hlt]
  constructor
  · intro i c hc
    have honce := h.once i c hc
    rw [hzero] at honce
    simpa [State.handles, hacceptor, Acceptor.threadsToJoin, joinables] using honce
  · simp [State.handles, hacceptor, Acceptor.threadsToJoin]
  · exact h.ended
  · exact h.closed
  · exact h.ids
  · simp
  · simp
  · simp [hacceptor, Acceptor.threadsToJoin]

/-- Once the handles are gone, every client thread was joined once. -/
theorem Threads.joined_of_no_handles {s : State} (h : Threads s) (hhandles : s.handles = [])
    {i : Nat} {c : Client} (hc : s.clients[i]? = some c) : c.joins = 1 := by
  have honce := h.once i c hc
  rw [hhandles] at honce
  exact honce

end OracleMachine.Network.TcpServer
