import OracleMachine.Lib.Entries
import OracleMachine.Lib.Ownership
import OracleMachine.Network.TcpServer.Model

/-!
# The descriptors of the TCP server

`Fds` is the part of the invariant about descriptors: every descriptor that a
party holds is open and has no second owner, and the active list has those of
the client threads, once each.  A client thread takes its descriptor off the
list before it closes it, and the accept thread puts a descriptor on the list
before it starts the client thread.

A step takes a free descriptor (`Fds.acquire`), closes one (`Fds.release`),
passes one on (`Fds.spawn`), changes the list (`Fds.push`, `Fds.remove`), or
does none of this (`Fds.frame`).
-/

namespace OracleMachine.Network.TcpServer

open Lib.Entries Lib.Ownership

/-- The descriptors: each has one owner, who holds it open, and the active list
has each descriptor of a client thread once. -/
structure Fds (s : State) : Prop where
  held : Exclusive (Owns s) (· ∈ s.openFDs)
  nodup : s.activeClientFDs.Nodup
  active : ∀ fd, fd ∈ s.activeClientFDs ↔ ∃ o, Lists s o fd

/-- A step that moves no descriptor. -/
theorem Fds.frame {s s' : State} (h : Fds s) (howns : Owns s' = Owns s)
    (hlists : Lists s' = Lists s) (hopen : s'.openFDs = s.openFDs)
    (hactive : s'.activeClientFDs = s.activeClientFDs) : Fds s' where
  held := by rw [howns, hopen]; exact h.held
  nodup := by rw [hactive]; exact h.nodup
  active := by rw [hactive, hlists]; exact h.active

theorem owns_congr {s s' : State} (hserver : s'.serverFD = s.serverFD)
    (hacceptor : s'.acceptor.owned = s.acceptor.owned)
    (hclients : ∀ i : Nat, s'.clients[i]?.bind Client.owned = s.clients[i]?.bind Client.owned)
    (helsewhere : s'.elsewhere = s.elsewhere) : Owns s' = Owns s := by
  funext o fd
  cases o with
  | server => simp only [Owns, hserver]
  | acceptor => simp only [Owns, hacceptor]
  | client i => simp only [Owns, hclients]
  | elsewhere => simp only [Owns, helsewhere]

theorem lists_congr {s s' : State} (hacceptor : s'.acceptor.lists = s.acceptor.lists)
    (hclients : ∀ i : Nat, s'.clients[i]?.bind Client.lists = s.clients[i]?.bind Client.lists) :
    Lists s' = Lists s := by
  funext o fd
  cases o with
  | server | elsewhere => rfl
  | acceptor => simp only [Lists, hacceptor]
  | client i => simp only [Lists, hclients]

/-- Who stands for an entry of the list holds the descriptor. -/
theorem owns_of_lists {s : State} {o : Owner} {fd : Nat} (h : Lists s o fd) : Owns s o fd := by
  cases o with
  | server | elsewhere => exact False.elim h
  | acceptor =>
    simp only [Lists] at h
    simp only [Owns]
    cases hacceptor : s.acceptor <;> simp_all [Acceptor.lists, Acceptor.owned]
  | client i =>
    obtain ⟨c, hc, hfd⟩ := Option.bind_eq_some_iff.mp h
    apply Option.bind_eq_some_iff.mpr
    refine ⟨c, hc, ?_⟩
    simp only [Client.lists, Bool.and_eq_true, Option.ite_none_right_eq_some] at hfd
    simp [Client.owned, hfd]

/-- `o` takes the free descriptor `fd`. -/
theorem Fds.acquire {s s' : State} (h : Fds s) {o : Owner} {fd : Nat} (hfree : fd ∉ s.openFDs)
    (howns : ∀ o' x, Owns s' o' x → Owns s o' x ∨ o' = o ∧ x = fd)
    (hlists : Lists s' = Lists s) (hopen : s'.openFDs = insert fd s.openFDs)
    (hactive : s'.activeClientFDs = s.activeClientFDs) : Fds s' where
  held := by
    rw [hopen]
    exact h.held.acquire hfree howns (Finset.mem_insert_self fd _)
      fun x hx => Finset.mem_insert_of_mem hx
  nodup := by rw [hactive]; exact h.nodup
  active := by rw [hactive, hlists]; exact h.active

/-- `o` closes its descriptor `fd`. -/
theorem Fds.release {s s' : State} (h : Fds s) {o : Owner} {fd : Nat} (hfd : Owns s o fd)
    (howns : ∀ o' x, Owns s' o' x → Owns s o' x ∧ ¬ (o' = o ∧ x = fd))
    (hlists : Lists s' = Lists s) (hopen : s'.openFDs = s.openFDs.erase fd)
    (hactive : s'.activeClientFDs = s.activeClientFDs) : Fds s' where
  held := by
    rw [hopen]
    exact h.held.release hfd howns fun x hx hne => Finset.mem_erase.mpr ⟨hne, hx⟩
  nodup := by rw [hactive]; exact h.nodup
  active := by rw [hactive, hlists]; exact h.active

/-- The accept thread lists the descriptor it has accepted. -/
theorem Fds.push {s : State} (h : Fds s) {fd : Nat} (hacceptor : s.acceptor = .admitted fd) :
    Fds { s with acceptor := .listed fd, activeClientFDs := s.activeClientFDs ++ [fd] } where
  held := by
    have howns : Owns { s with
        acceptor := .listed fd, activeClientFDs := s.activeClientFDs ++ [fd] } = Owns s := by
      refine owns_congr rfl ?_ (fun _ => rfl) rfl
      rw [hacceptor]
      rfl
    rw [howns]
    exact h.held
  nodup := by
    -- an entry that is listed already belongs to a client thread, not to the accept thread
    have hnew : fd ∉ s.activeClientFDs := by
      intro hfd
      obtain ⟨o, ho⟩ := (h.active fd).mp hfd
      have howns : Owns s .acceptor fd := by
        show s.acceptor.owned = some fd
        rw [hacceptor]
        rfl
      have heq := h.held.sole (owns_of_lists ho) howns
      subst heq
      simp [Lists, hacceptor, Acceptor.lists] at ho
    rw [List.nodup_append]
    refine ⟨h.nodup, List.nodup_singleton fd, ?_⟩
    intro x hx y hy
    rw [List.mem_singleton.mp hy]
    exact fun heq => hnew (heq ▸ hx)
  active := by
    intro x
    rw [List.mem_append, List.mem_singleton, h.active]
    constructor
    · rintro (⟨o, ho⟩ | rfl)
      · refine ⟨o, ?_⟩
        cases o with
        | acceptor => simp [Lists, hacceptor, Acceptor.lists] at ho
        | server | client i | elsewhere => exact ho
      · exact ⟨.acceptor, rfl⟩
    · rintro ⟨o, ho⟩
      cases o with
      | acceptor => exact .inr (Option.some.inj ho).symm
      | client i => exact .inl ⟨.client i, ho⟩
      | server | elsewhere => exact False.elim ho

/-- The new client thread takes over the listed descriptor. -/
theorem Fds.spawn {s : State} (h : Fds s) {fd : Nat} (hacceptor : s.acceptor = .joining fd [])
    (id : Nat) (clientThreads : List Thread) :
    Fds { s with
      acceptor := .top
      clients := s.clients ++ [{ id, fd, sessionOpen := true, phase := .handling, joins := 0 }]
      clientThreads } where
  held := by
    apply h.held.pass .acceptor (.client s.clients.length)
    intro o x ho
    cases o with
    | acceptor => simp [Owns, Acceptor.owned] at ho
    | client i =>
      rcases bind_concat.mp ho with ho | ⟨rfl, hx⟩
      · exact .inr ⟨by simp, ho⟩
      · left
        refine ⟨rfl, ?_⟩
        show s.acceptor.owned = some x
        rw [hacceptor]
        exact hx
    | server | elsewhere => exact .inr ⟨by simp, ho⟩
  nodup := h.nodup
  active := by
    intro x
    rw [h.active]
    constructor
    · rintro ⟨o, ho⟩
      cases o with
      | acceptor =>
        refine ⟨.client s.clients.length, bind_concat.mpr (.inr ⟨rfl, ?_⟩)⟩
        simp only [Lists, hacceptor] at ho
        exact ho
      | client i => exact ⟨.client i, bind_concat.mpr (.inl ho)⟩
      | server | elsewhere => exact False.elim ho
    · rintro ⟨o, ho⟩
      cases o with
      | acceptor => simp [Lists, Acceptor.lists] at ho
      | client i =>
        rcases bind_concat.mp ho with ho | ⟨rfl, hx⟩
        · exact ⟨.client i, ho⟩
        · refine ⟨.acceptor, ?_⟩
          show s.acceptor.lists = some x
          rw [hacceptor]
          exact hx
      | server | elsewhere => exact False.elim ho

/-- A client thread takes its descriptor off the list. -/
theorem Fds.remove {s : State} (h : Fds s) {i : Nat} {c : Client} (hc : s.clients[i]? = some c)
    (hphase : c.phase = .marked) (hsession : c.sessionOpen = true) :
    Fds { s with
      clients := s.clients.set i { c with phase := .removed }
      activeClientFDs := s.activeClientFDs.erase c.fd } where
  held := by
    have howns : Owns { s with
        clients := s.clients.set i { c with phase := .removed }
        activeClientFDs := s.activeClientFDs.erase c.fd } = Owns s := by
      refine owns_congr rfl rfl (fun j => bind_set hc ?_ j) rfl
      rfl
    rw [howns]
    exact h.held
  nodup := h.nodup.erase c.fd
  active := by
    intro x
    have hown : Lists s (.client i) c.fd := by
      show s.clients[i]?.bind Client.lists = some c.fd
      simp [hc, Client.lists, hphase, hsession, ClientPhase.isListed]
    have hi : i < s.clients.length := (List.getElem?_eq_some_iff.mp hc).1
    rw [h.nodup.mem_erase_iff, h.active]
    constructor
    · rintro ⟨hne, o, ho⟩
      refine ⟨o, ?_⟩
      cases o with
      | client j =>
        have hj : j ≠ i := by
          rintro rfl
          exact hne (Option.some.inj (ho.symm.trans hown))
        simp only [Lists, List.getElem?_set_ne (Ne.symm hj)]
        exact ho
      | server | acceptor | elsewhere => exact ho
    · rintro ⟨o, ho⟩
      have hold : Lists s o x ∧ o ≠ .client i := by
        cases o with
        | client j =>
          by_cases hj : j = i
          · subst hj
            simp [Lists, hi, Client.lists, ClientPhase.isListed] at ho
          · simp only [Lists, List.getElem?_set_ne (Ne.symm hj)] at ho
            exact ⟨ho, by simpa using hj⟩
        | acceptor => exact ⟨ho, by simp⟩
        | server | elsewhere => exact False.elim ho
      refine ⟨?_, o, hold.1⟩
      rintro rfl
      exact hold.2 (h.held.sole (owns_of_lists hold.1) (owns_of_lists hown))

/-- A change of a client thread's phase moves no descriptor if the thread stays
on the list. -/
theorem Fds.set_phase {s : State} (h : Fds s) {i : Nat} {c : Client}
    (hc : s.clients[i]? = some c) {phase : ClientPhase}
    (hlisted : phase.isListed = c.phase.isListed) (finishedThreadIds : Finset Nat) :
    Fds { s with clients := s.clients.set i { c with phase }, finishedThreadIds } := by
  refine h.frame (owns_congr rfl rfl (fun j => bind_set hc ?_ j) rfl)
    (lists_congr rfl fun j => bind_set hc ?_ j) rfl rfl
  · rfl
  · simp only [Client.lists, hlisted]

/-- The destructor of a session closes its descriptor. -/
theorem Fds.destroy {s : State} (h : Fds s) {i : Nat} {c : Client}
    (hc : s.clients[i]? = some c) (hphase : c.phase = .removed) :
    Fds (closeSession s i c .ended) := by
  have hi : i < s.clients.length := (List.getElem?_eq_some_iff.mp hc).1
  have hlists : Lists (closeSession s i c .ended) = Lists s := by
    refine lists_congr rfl fun j => bind_set hc ?_ j
    simp [Client.lists, hphase, ClientPhase.isListed]
  cases hsession : c.sessionOpen with
  | false =>
    refine h.frame (owns_congr rfl rfl (fun j => bind_set hc ?_ j) rfl) hlists ?_ rfl
    · simp [Client.owned, hsession]
    · simp [closeSession, hsession]
  | true =>
    have hown : Owns s (.client i) c.fd := by
      show s.clients[i]?.bind Client.owned = some c.fd
      simp [hc, Client.owned, hsession]
    refine h.release hown ?_ hlists (by simp [closeSession, hsession]) rfl
    intro o x ho
    cases o with
    | client j =>
      by_cases hj : j = i
      · subst hj
        simp [Owns, closeSession, hi, Client.owned] at ho
      · simp only [Owns, closeSession, List.getElem?_set_ne (Ne.symm hj)] at ho
        exact ⟨ho, by simp [hj]⟩
    | server | acceptor | elsewhere => exact ⟨ho, by simp⟩

/-- `join` moves no descriptor. -/
theorem Fds.joined {s s' : State} (h : Fds s) {t : Thread}
    (hjoin : join s.clients t = some s'.clients) (hserver : s'.serverFD = s.serverFD)
    (howned : s'.acceptor.owned = s.acceptor.owned)
    (hlists : s'.acceptor.lists = s.acceptor.lists) (helsewhere : s'.elsewhere = s.elsewhere)
    (hopen : s'.openFDs = s.openFDs) (hactive : s'.activeClientFDs = s.activeClientFDs) :
    Fds s' := by
  have hclients := (join_spec hjoin).1
  refine h.frame (owns_congr hserver howned ?_ helsewhere) (lists_congr hlists ?_) hopen hactive
  all_goals
    intro i
    rw [hclients, Option.bind_map]
    rfl

/-- `stop` closes the server socket. -/
theorem Fds.closeServer {s s' : State} (h : Fds s) {fd : Nat} (hserver : s.serverFD = some fd)
    (hs' : s' = { s with
      serverFD := none, openFDs := s.openFDs.erase fd, stopping := .closed }) : Fds s' := by
  subst hs'
  refine h.release (o := .server) hserver ?_ rfl rfl rfl
  intro o x ho
  cases o with
  | server => simp [Owns] at ho
  | acceptor | client i | elsewhere => exact ⟨ho, by simp⟩

end OracleMachine.Network.TcpServer
