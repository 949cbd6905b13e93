import OracleMachine.Lib.Entries
import OracleMachine.Lib.Ledger
import OracleMachine.Lib.Transition
import OracleMachine.Network.Recording

/-!
# Session objects and their descriptors

A `Session` owns the descriptor of its socket.  The object can be moved, shut
down, closed and destroyed, by hand or by assigning another one to it, and the
descriptor must be closed once in all of this.

The code of the class is that of `Network.Session`, which is about one
connection and knows only whether its descriptor is there.  Here the descriptors
are numbers, any number of objects is alive at the same time, and every system
call on a descriptor is noted in a ledger.  `Port` is the socket that does so: an
object works as a session on its port (`Object.session`), and `Object.after` puts
the fields back.

`Keeps` says once what the operations do that keep the descriptor, and
`owned_close` is the one operation that gives it back.  `descriptors_owned` is
what holds in every run.
-/

namespace OracleMachine.Network.SessionObjects

open Lib.Entries Lib.Ledger Lib.Transition

/-! ## Objects and descriptors -/

/-- The system calls on a descriptor, apart from those that open or close it. -/
inductive Call where
  | shutdown
  | send
  | recv
  deriving DecidableEq

/-- What was done with the descriptors, and the sockets behind them. -/
structure Kernel (σ : Type) where
  events : List (Event Call Int)
  sock : Int → σ

/-- The fields of a `Session`. -/
structure Object where
  socketFD : Int
  remoteIP : String
  remotePort : UInt16
  active : Bool
  bytesSent : UInt64
  bytesReceived : UInt64
  deriving DecidableEq

variable {σ : Type}

namespace Kernel

/-- A system call without an answer. -/
def note (k : Kernel σ) (event : Event Call Int) : Kernel σ :=
  { k with events := event :: k.events }

/-- `send` on a descriptor. -/
def send [Socket σ] (k : Kernel σ) (fd : Int) (bs : List UInt8) : Option Nat × Kernel σ :=
  ((Socket.send (k.sock fd) bs).1,
    { events := .use .send fd :: k.events
      sock := Function.update k.sock fd (Socket.send (k.sock fd) bs).2 })

/-- `recv` on a descriptor. -/
def recv [Socket σ] (k : Kernel σ) (fd : Int) (sz : Nat) : RecvOutcome × Kernel σ :=
  ((Socket.recv (k.sock fd) sz).1,
    { events := .use .recv fd :: k.events
      sock := Function.update k.sock fd (Socket.recv (k.sock fd) sz).2 })

end Kernel

/-- What the system calls of one object reach: its descriptor, the kernel, and the
counters of the object. -/
structure Port (σ : Type) where
  socketFD : Int
  kernel : Kernel σ
  bytesSent : UInt64
  bytesReceived : UInt64

instance [Socket σ] : Socket (Port σ) where
  recv port sz :=
    let out := port.kernel.recv port.socketFD sz
    (out.1,
      { port with
        kernel := out.2
        bytesReceived := port.bytesReceived + .ofNat out.1.bytes.length })
  send port bs :=
    let out := port.kernel.send port.socketFD bs
    (out.1,
      { port with kernel := out.2, bytesSent := port.bytesSent + .ofNat (out.1.getD 0) })
  shutdown port := { port with kernel := port.kernel.note (.use .shutdown port.socketFD) }
  -- `::close(_socketFD)`, and then `_socketFD = -1`
  close port :=
    { port with socketFD := -1, kernel := port.kernel.note (.release port.socketFD) }
  length_recv port sz _ _ h :=
    Socket.length_recv (port.kernel.sock port.socketFD) sz _ _ (Prod.ext (Prod.mk.inj h).1 rfl)
  send_pos port bs _ _ h :=
    Socket.send_pos (port.kernel.sock port.socketFD) bs _ _ (Prod.ext (Prod.mk.inj h).1 rfl)

namespace Object

/-- `Session::Session(int, const std::string&, uint16_t)`. -/
def construct (socketFD : Int) (remoteIP : String) (remotePort : UInt16) : Object where
  socketFD
  remoteIP
  remotePort
  active := 0 ≤ socketFD
  bytesSent := 0
  bytesReceived := 0

/-- `Session::Session(Session&&)`: the new object, and what is left of the other
one.  A string that was moved from is left empty. -/
def moveConstruct (other : Object) : Object × Object :=
  (other, { other with socketFD := -1, remoteIP := "", active := false })

/-- The object as a session on its port. -/
def session (obj : Object) (k : Kernel σ) : Session (Port σ) where
  isOpen := 0 ≤ obj.socketFD
  active := obj.active
  sock :=
    { socketFD := obj.socketFD
      kernel := k
      bytesSent := obj.bytesSent
      bytesReceived := obj.bytesReceived }

/-- The object and the kernel when its session is `sess`. -/
def after (obj : Object) (sess : Session (Port σ)) : Object × Kernel σ :=
  ({ obj with
      socketFD := sess.sock.socketFD
      active := sess.active
      bytesSent := sess.sock.bytesSent
      bytesReceived := sess.sock.bytesReceived },
    sess.sock.kernel)

section Socket

variable [Socket σ]

/-- `Session::close`. -/
def close (obj : Object) (k : Kernel σ) : Object × Kernel σ := obj.after (obj.session k).close

/-- `Session::operator=(Session&&)` for two different objects: both of them
afterwards. -/
def moveAssign (this other : Object) (k : Kernel σ) : (Object × Object) × Kernel σ :=
  (other.moveConstruct, (this.close k).2)

/-- `Session::forceShutdown`. -/
def forceShutdown (obj : Object) (k : Kernel σ) : Object × Kernel σ :=
  obj.after (obj.session k).forceShutdown

/-- `Session::receive`. -/
def receive (obj : Object) (k : Kernel σ) (sz : Nat) : Received × Object × Kernel σ :=
  let out := (obj.session k).receive sz
  (out.1, obj.after out.2)

/-- `Session::receiveExact`. -/
def receiveExact (obj : Object) (k : Kernel σ) (sz : Nat) : Received × Object × Kernel σ :=
  let out := (obj.session k).receiveExact sz
  (out.1, obj.after out.2)

/-- `Session::sendData`. -/
def sendData (obj : Object) (k : Kernel σ) (data : List UInt8) : Bool × Object × Kernel σ :=
  let out := (obj.session k).sendData data
  (out.1, obj.after out.2)

end Socket

/-- The descriptor that an object owns. -/
def descriptor (obj : Object) : Option Int :=
  if 0 ≤ obj.socketFD then some obj.socketFD else none

end Object

/-! ## Any number of objects -/

/-- All objects, with `none` for those that are destroyed, and the descriptors. -/
structure State (σ : Type) where
  objects : List (Option Object)
  kernel : Kernel σ

/-- The operations.  An object is known by its index. -/
inductive Label (σ : Type) where
  | construct (socketFD : Int) (remoteIP : String) (remotePort : UInt16) (sock : σ)
  | moveConstruct (j : Nat)
  | moveAssign (i j : Nat)
  | close (i : Nat)
  | forceShutdown (i : Nat)
  | sendData (i : Nat) (data : List UInt8)
  | receive (i : Nat) (sz : Nat)
  | receiveExact (i : Nat) (sz : Nat)
  | destroy (i : Nat)

/-- The descriptor that an operation hands over to a new object. -/
def Label.handed : Label σ → Option Int
  | .construct socketFD _ _ _ => if 0 ≤ socketFD then some socketFD else none
  | _ => none

namespace State

/-- No objects. -/
def init (sock : Int → σ) : State σ where
  objects := []
  kernel := { events := [], sock }

/-- The object with index `i`, if it is alive. -/
def object (s : State σ) (i : Nat) : Option Object := s.objects[i]?.bind id

/-- Object `i` is alive and owns the descriptor `fd`. -/
def Owns (s : State σ) (i : Nat) (fd : Int) : Prop :=
  s.objects[i]?.bind (Option.bind · Object.descriptor) = some fd

/-- Object `i` does something. -/
def act (s : State σ) (i : Nat) (f : Object → Object × Kernel σ) : Option (State σ) :=
  (s.object i).map fun obj =>
    { objects := s.objects.set i (some (f obj).1), kernel := (f obj).2 }

/-- One operation.  A new object gets a negative number, or a descriptor that was
just opened. -/
def step [Socket σ] (s : State σ) : Label σ → Option (State σ)
  | .construct socketFD remoteIP remotePort sock =>
    let objects := s.objects ++ [some (.construct socketFD remoteIP remotePort)]
    if 0 ≤ socketFD then
      if isOpen s.kernel.events socketFD then none
      else
        some
          { objects
            kernel :=
              { events := .acquire socketFD :: s.kernel.events
                sock := Function.update s.kernel.sock socketFD sock } }
    else some { s with objects }
  | .moveConstruct j =>
    (s.object j).map fun other =>
      { s with
        objects := s.objects.set j (some other.moveConstruct.2) ++ [some other.moveConstruct.1] }
  | .moveAssign i j =>
    (s.object i).bind fun this =>
      -- if (this != &other)
      if i = j then some s
      else
        (s.object j).map fun other =>
          match this.moveAssign other s.kernel with
          | ((this', other'), kernel) =>
            { objects := (s.objects.set i (some this')).set j (some other'), kernel }
  | .close i => s.act i fun obj => obj.close s.kernel
  | .forceShutdown i => s.act i fun obj => obj.forceShutdown s.kernel
  | .sendData i data => s.act i fun obj => (obj.sendData s.kernel data).2
  | .receive i sz => s.act i fun obj => (obj.receive s.kernel sz).2
  | .receiveExact i sz => s.act i fun obj => (obj.receiveExact s.kernel sz).2
  | .destroy i =>
    (s.object i).map fun obj =>
      { objects := s.objects.set i none, kernel := (obj.close s.kernel).2 }

end State

/-! ## Operations that keep the descriptor -/

/-- The session has its descriptor as before and is not active again, and all that
was done is to use the descriptor, if it is open. -/
structure Keeps (sess sess' : Session (Port σ)) : Prop where
  isOpen_eq : sess'.isOpen = sess.isOpen
  socketFD_eq : sess'.sock.socketFD = sess.sock.socketFD
  active_of : sess'.active = true → sess.active = true
  events_eq : ∃ calls : List Call,
    sess'.sock.kernel.events =
        calls.map (Event.use · sess.sock.socketFD) ++ sess.sock.kernel.events ∧
      (sess.isOpen = true ∨ calls = [])

namespace Keeps

variable {sess sess' sess'' : Session (Port σ)}

theorem refl (sess : Session (Port σ)) : Keeps sess sess where
  isOpen_eq := rfl
  socketFD_eq := rfl
  active_of := id
  events_eq := ⟨[], rfl, .inr rfl⟩

theorem call {call : Call} (hopen : sess.isOpen = true) (hactive : sess.active = true)
    (hisOpen : sess'.isOpen = sess.isOpen)
    (hsame : sess'.sock.socketFD = sess.sock.socketFD)
    (hevents : sess'.sock.kernel.events =
      .use call sess.sock.socketFD :: sess.sock.kernel.events) : Keeps sess sess' where
  isOpen_eq := hisOpen
  socketFD_eq := hsame
  active_of := fun _ => hactive
  events_eq := ⟨[call], hevents, .inl hopen⟩

theorem trans (h : Keeps sess sess') (h' : Keeps sess' sess'') : Keeps sess sess'' where
  isOpen_eq := h'.isOpen_eq.trans h.isOpen_eq
  socketFD_eq := h'.socketFD_eq.trans h.socketFD_eq
  active_of := fun hactive => h.active_of (h'.active_of hactive)
  events_eq := by
    obtain ⟨calls, hcalls, hopen⟩ := h.events_eq
    obtain ⟨calls', hcalls', hopen'⟩ := h'.events_eq
    rw [h.socketFD_eq, hcalls] at hcalls'
    rw [h.isOpen_eq] at hopen'
    refine ⟨calls' ++ calls, ?_, ?_⟩
    · rw [hcalls', List.map_append, List.append_assoc]
    · rcases hopen' with hopen' | rfl
      · exact .inl hopen'
      · exact hopen

end Keeps

section Socket

variable [Socket σ]

theorem keeps_forceShutdown (sess : Session (Port σ)) : Keeps sess sess.forceShutdown := by
  unfold Session.forceShutdown
  split
  · next husable =>
    rw [Bool.and_eq_true] at husable
    exact .call husable.1 husable.2 rfl rfl rfl
  · exact .refl sess

theorem keeps_receive (sess : Session (Port σ)) (sz : Nat) : Keeps sess (sess.receive sz).2 := by
  have hsame : (Socket.recv sess.sock sz).2.socketFD = sess.sock.socketFD := rfl
  have hevents : (Socket.recv sess.sock sz).2.kernel.events =
    .use .recv sess.sock.socketFD :: sess.sock.kernel.events := rfl
  unfold Session.receive
  split
  · exact .refl sess
  · next husable =>
    simp only [Bool.or_eq_true, Bool.not_eq_true', not_or, Bool.not_eq_false] at husable
    obtain ⟨hactive, hopen⟩ := husable
    -- one `recv`, whatever its outcome
    split <;> next hrecv =>
      rw [hrecv] at hsame hevents
      exact .call hopen hactive rfl hsame hevents

theorem keeps_receiveLoop (fuel : Nat) (sess : Session (Port σ)) (sz : Nat) (acc : List UInt8) :
    Keeps sess (Session.receiveLoop fuel sess sz acc).2 := by
  induction fuel generalizing sess acc with
  | zero => exact .refl sess
  | succ fuel ih =>
    have hreceive := keeps_receive sess (sz - acc.length)
    rw [Session.receiveLoop]
    split
    · split
      · next heq =>
        rw [heq] at hreceive
        exact hreceive
      · next heq =>
        rw [heq] at hreceive
        exact hreceive.trans (ih _ _)
      · next heq =>
        rw [heq] at hreceive
        exact hreceive
    · exact .refl sess

theorem keeps_sendLoop (fuel : Nat) (sess : Session (Port σ)) (bs : List UInt8)
    (hactive : sess.active = true) (hopen : sess.isOpen = true) :
    Keeps sess (sess.sendLoop fuel bs).2 := by
  induction fuel generalizing sess bs with
  | zero => cases bs <;> exact .refl sess
  | succ fuel ih =>
    cases bs with
    | nil => exact .refl sess
    | cons b bs =>
      have hsame : (Socket.send sess.sock (b :: bs)).2.socketFD = sess.sock.socketFD := rfl
      have hevents : (Socket.send sess.sock (b :: bs)).2.kernel.events =
        .use .send sess.sock.socketFD :: sess.sock.kernel.events := rfl
      rw [Session.sendLoop]
      split
      · next hsend =>
        rw [hsend] at hsame hevents
        exact .call hopen hactive rfl hsame hevents
      · next n port hsend =>
        rw [hsend] at hsame hevents
        have hsent : Keeps sess { sess with sock := port } :=
          .call hopen hactive rfl hsame hevents
        exact hsent.trans (ih _ _ hactive hopen)

theorem keeps_sendData (sess : Session (Port σ)) (data : List UInt8) :
    Keeps sess (sess.sendData data).2 := by
  unfold Session.sendData
  split
  · exact .refl sess
  · next husable =>
    simp only [Bool.or_eq_true, Bool.not_eq_true', not_or, Bool.not_eq_false] at husable
    exact keeps_sendLoop _ _ _ husable.1.1 husable.2

/-- `close`, as a change of the object and of the ledger. -/
theorem close_eq (obj : Object) (k : Kernel σ) :
    obj.close k =
      if 0 ≤ obj.socketFD then
        ({ obj with socketFD := -1, active := false },
          (if obj.active then k.note (.use .shutdown obj.socketFD) else k).note
            (.release obj.socketFD))
      else (obj, k) := by
  unfold Object.close Session.close
  by_cases hfd : 0 ≤ obj.socketFD
  · cases hactive : obj.active <;> simp [Object.session, hfd, hactive] <;> rfl
  · simp [Object.session, hfd, Object.after]

end Socket

/-! ## One owner for every descriptor -/

/-- Every active object has a descriptor. -/
def Backed (objects : List (Option Object)) : Prop :=
  ∀ obj, some obj ∈ objects → obj.active = true → 0 ≤ obj.socketFD

theorem Backed.set {objects : List (Option Object)} (h : Backed objects) (i : Nat)
    {slot : Option Object} (hslot : ∀ obj, slot = some obj → obj.active = true → 0 ≤ obj.socketFD) :
    Backed (objects.set i slot) := by
  intro obj hmem hactive
  rcases List.mem_or_eq_of_mem_set hmem with hold | hnew
  · exact h obj hold hactive
  · exact hslot obj hnew.symm hactive

theorem Backed.concat {objects : List (Option Object)} (h : Backed objects) {obj : Object}
    (hobj : obj.active = true → 0 ≤ obj.socketFD) : Backed (objects ++ [some obj]) := by
  intro obj' hmem hactive
  rcases List.mem_append.mp hmem with hold | hnew
  · exact h obj' hold hactive
  · obtain rfl := Option.some.inj (List.mem_singleton.mp hnew)
    exact hobj hactive

/-- Every open descriptor has one owner, and an active object has a descriptor. -/
structure Sound (s : State σ) : Prop where
  owned : Owned s.Owns s.kernel.events
  active : Backed s.objects

/-- The table entry of an object that is alive. -/
theorem getElem?_of_object {s : State σ} {i : Nat} {obj : Object} (h : s.object i = some obj) :
    s.objects[i]? = some (some obj) := by
  obtain ⟨slot, hslot, rfl⟩ := Option.bind_eq_some_iff.mp h
  exact hslot

theorem owns_iff {s : State σ} {i : Nat} {obj : Object} (h : s.object i = some obj) (fd : Int) :
    s.Owns i fd ↔ obj.descriptor = some fd := by
  rw [State.Owns, getElem?_of_object h]
  rfl

/-- Who owns what after entry `i` has changed. -/
theorem owns_set {s s' : State σ} {i : Nat} {obj : Object} {slot : Option Object}
    (h : s.object i = some obj) (hobjects : s'.objects = s.objects.set i slot) (p : Nat) (x : Int) :
    s'.Owns p x ↔ p = i ∧ slot.bind Object.descriptor = some x ∨ p ≠ i ∧ s.Owns p x := by
  rw [State.Owns, hobjects, bind_set_apply (getElem?_of_object h), State.Owns]
  by_cases hp : p = i
  · simp [hp]
  · simp [hp]

theorem descriptor_of_nonneg {obj : Object} (h : 0 ≤ obj.socketFD) :
    obj.descriptor = some obj.socketFD :=
  if_pos h

theorem descriptor_of_neg {obj : Object} (h : ¬ 0 ≤ obj.socketFD) : obj.descriptor = none :=
  if_neg h

/-- `close` gives the descriptor of an object back, after a last use of it. -/
theorem owned_close [Socket σ] {owns : Nat → Int → Prop} {obj : Object} {k : Kernel σ} {i : Nat}
    (h : Owned owns k.events) (hobj : ∀ x, owns i x ↔ obj.descriptor = some x) :
    Owned (fun p x => p ≠ i ∧ owns p x) (obj.close k).2.events := by
  rw [close_eq]
  by_cases hfd : 0 ≤ obj.socketFD
  · rw [if_pos hfd]
    rw [descriptor_of_nonneg hfd] at hobj
    have howns : owns i obj.socketFD := (hobj _).mpr rfl
    have hlast : Owned owns
        (if obj.active then k.note (.use .shutdown obj.socketFD) else k).events := by
      split
      · exact h.use howns _
      · exact h
    refine hlast.release howns fun p x => ?_
    constructor
    · rintro ⟨hne, hp⟩
      exact ⟨hp, fun hsame => hne hsame.1⟩
    · rintro ⟨hp, hother⟩
      refine ⟨?_, hp⟩
      rintro rfl
      exact hother ⟨rfl, (Option.some.inj ((hobj x).mp hp)).symm⟩
  · rw [if_neg hfd]
    rw [descriptor_of_neg hfd] at hobj
    refine h.congr fun p x => and_iff_right_of_imp ?_
    rintro hp rfl
    cases (hobj x).mp hp

theorem acquired_close [Socket σ] (obj : Object) (k : Kernel σ) :
    acquired (obj.close k).2.events = acquired k.events := by
  rw [close_eq]
  split
  · dsimp only [Kernel.note, acquired]
    split <;> rfl
  · rfl

/-- Closed objects own nothing and are not active. -/
theorem descriptor_close [Socket σ] (obj : Object) (k : Kernel σ) :
    (obj.close k).1.descriptor = none := by
  rw [close_eq]
  by_cases hfd : 0 ≤ obj.socketFD
  · rw [if_pos hfd]
    rfl
  · rw [if_neg hfd]
    exact descriptor_of_neg hfd

theorem active_close [Socket σ] {obj : Object} (h : obj.active = true → 0 ≤ obj.socketFD)
    (k : Kernel σ) : (obj.close k).1.active = false := by
  rw [close_eq]
  by_cases hfd : 0 ≤ obj.socketFD
  · rw [if_pos hfd]
  · rw [if_neg hfd]
    exact Bool.eq_false_iff.mpr fun hactive => hfd (h hactive)

section Steps

variable {s s' : State σ} {i j : Nat} {obj : Object}

/-- An operation that keeps the descriptor of its object. -/
theorem Sound.keeps (h : Sound s) (hobj : s.object i = some obj) {sess : Session (Port σ)}
    (hkeeps : Keeps (obj.session s.kernel) sess)
    (hobjects : s'.objects = s.objects.set i (some (obj.after sess).1))
    (hkernel : s'.kernel = (obj.after sess).2) :
    Sound s' ∧ acquired s'.kernel.events = acquired s.kernel.events := by
  obtain ⟨calls, hevents, hused⟩ := hkeeps.events_eq
  have hentry := getElem?_of_object hobj
  have hfd_eq : (obj.after sess).1.socketFD = obj.socketFD := hkeeps.socketFD_eq
  have hevents : (obj.after sess).2.events =
    calls.map (Event.use · obj.socketFD) ++ s.kernel.events := hevents
  have hsame : (obj.after sess).1.descriptor = obj.descriptor := by
    rw [Object.descriptor, hfd_eq, Object.descriptor]
  have howns (p : Nat) (x : Int) : s'.Owns p x ↔ s.Owns p x := by
    rw [State.Owns, hobjects, bind_set hentry hsame, State.Owns]
  rw [hkernel, hevents, acquired_uses]
  refine ⟨⟨?_, ?_⟩, rfl⟩
  · rw [hkernel, hevents]
    refine Owned.congr ?_ howns
    rcases hused with hopen | rfl
    · have hfd : 0 ≤ obj.socketFD := of_decide_eq_true hopen
      exact h.owned.uses ((owns_iff hobj _).mpr (descriptor_of_nonneg hfd)) calls
    · exact h.owned
  · rw [hobjects]
    apply h.active.set
    rintro obj' ⟨⟩ hactive
    rw [hfd_eq]
    exact h.active obj (List.mem_of_getElem? hentry) (hkeeps.active_of hactive)

/-- An object is closed, and may be destroyed then. -/
theorem Sound.close [Socket σ] (h : Sound s) (hobj : s.object i = some obj) {slot : Option Object}
    (hslot : slot = none ∨ slot = some (obj.close s.kernel).1)
    (hobjects : s'.objects = s.objects.set i slot) (hkernel : s'.kernel = (obj.close s.kernel).2) :
    Sound s' ∧ acquired s'.kernel.events = acquired s.kernel.events := by
  have hnothing : slot.bind Object.descriptor = none := by
    rcases hslot with rfl | rfl
    · rfl
    · exact descriptor_close obj s.kernel
  rw [hkernel]
  refine ⟨⟨?_, ?_⟩, acquired_close obj s.kernel⟩
  · rw [hkernel]
    refine (owned_close h.owned (owns_iff hobj)).congr fun p x => ?_
    rw [owns_set hobj hobjects, hnothing]
    simp
  · rw [hobjects]
    apply h.active.set
    rintro obj' rfl hactive
    have heq := Option.some.inj (hslot.resolve_left (Option.some_ne_none obj'))
    rw [heq, active_close (h.active obj (List.mem_of_getElem? (getElem?_of_object hobj)))]
      at hactive
    cases hactive

/-- A new object on a descriptor that was just opened, or on none. -/
theorem Sound.construct (h : Sound s) {socketFD : Int} {remoteIP : String} {remotePort : UInt16}
    (hobjects : s'.objects = s.objects ++ [some (.construct socketFD remoteIP remotePort)])
    (hkernel : 0 ≤ socketFD ∧ isOpen s.kernel.events socketFD = false ∧
        s'.kernel.events = .acquire socketFD :: s.kernel.events ∨
      ¬ 0 ≤ socketFD ∧ s'.kernel.events = s.kernel.events) : Sound s' := by
  have howns (p : Nat) (x : Int) : s'.Owns p x ↔ s.Owns p x ∨
      p = s.objects.length ∧
        (Object.construct socketFD remoteIP remotePort).descriptor = some x := by
    rw [State.Owns, hobjects, bind_concat, State.Owns]
    rfl
  refine ⟨?_, ?_⟩
  · rcases hkernel with ⟨hfd, hfree, hevents⟩ | ⟨hfd, hevents⟩
    · rw [hevents]
      refine h.owned.acquire (o := s.objects.length) hfree fun p x => ?_
      rw [howns, descriptor_of_nonneg hfd, Option.some.injEq]
      exact or_congr_right (and_congr_right fun _ => eq_comm)
    · rw [hevents]
      refine h.owned.congr fun p x => ?_
      rw [howns, descriptor_of_neg hfd]
      simp
  · rw [hobjects]
    exact h.active.concat of_decide_eq_true

/-- What `other` owns goes to a new object. -/
theorem Sound.moveConstruct (h : Sound s) {other : Object} (hother : s.object j = some other)
    (hobjects : s'.objects =
      s.objects.set j (some other.moveConstruct.2) ++ [some other.moveConstruct.1])
    (hkernel : s'.kernel = s.kernel) : Sound s' := by
  have hentry := getElem?_of_object hother
  have hlt : j < s.objects.length := (List.getElem?_eq_some_iff.mp hentry).1
  refine ⟨?_, ?_⟩
  · rw [hkernel]
    refine h.owned.pass j s.objects.length fun p x => ?_
    rw [State.Owns, hobjects, bind_concat, bind_set_apply hentry, List.length_set,
      owns_iff hother, State.Owns]
    by_cases hp : p = j
    · subst hp
      simp [hlt.ne, Object.moveConstruct, Object.descriptor]
    · simp only [hp, if_false, ne_eq, not_false_eq_true, true_and]
      exact or_comm
  · rw [hobjects]
    refine (h.active.set j ?_).concat (h.active other (List.mem_of_getElem? hentry))
    rintro obj ⟨⟩ ⟨⟩

/-- An object gives back what it owns and gets what `other` owns. -/
theorem Sound.moveAssign [Socket σ] (h : Sound s) {this other : Object}
    (hthis : s.object i = some this) (hne : i ≠ j) (hother : s.object j = some other)
    (hobjects : s'.objects = (s.objects.set i (some other.moveConstruct.1)).set j
      (some other.moveConstruct.2))
    (hkernel : s'.kernel = (this.close s.kernel).2) :
    Sound s' ∧ acquired s'.kernel.events = acquired s.kernel.events := by
  have hentry := getElem?_of_object hthis
  have hentry' : (s.objects.set i (some other.moveConstruct.1))[j]? = some (some other) := by
    rw [List.getElem?_set_ne hne]
    exact getElem?_of_object hother
  rw [hkernel]
  refine ⟨⟨?_, ?_⟩, acquired_close this s.kernel⟩
  · rw [hkernel]
    refine (owned_close h.owned (owns_iff hthis)).pass j i fun p x => ?_
    rw [State.Owns, hobjects, bind_set_apply hentry', bind_set_apply hentry, owns_iff hother,
      State.Owns]
    by_cases hp : p = j
    · subst hp
      simp [hne.symm, Object.moveConstruct, Object.descriptor]
    · by_cases hp' : p = i
      · subst hp'
        simp [hne, hne.symm, Object.moveConstruct]
      · simp [hp, hp']
  · rw [hobjects]
    refine (h.active.set i ?_).set j ?_
    · rintro obj ⟨⟩ hactive
      exact h.active other (List.mem_of_getElem? (getElem?_of_object hother)) hactive
    · rintro obj ⟨⟩ ⟨⟩

/-- The step of an operation that keeps the descriptor of its object. -/
theorem Sound.act (h : Sound s) {f : Session (Port σ) → Session (Port σ)}
    (hkeeps : ∀ sess, Keeps sess (f sess))
    (hstep : s.act i (fun obj => obj.after (f (obj.session s.kernel))) = some s') :
    Sound s' ∧ acquired s'.kernel.events = acquired s.kernel.events := by
  obtain ⟨obj, hobj, rfl⟩ := Option.map_eq_some_iff.mp hstep
  exact h.keeps hobj (hkeeps _) rfl rfl

/-- Every operation keeps the objects sound, and only a construction brings a
descriptor. -/
theorem sound_step [Socket σ] {label : Label σ} (h : Sound s) (hstep : s.step label = some s') :
    Sound s' ∧ acquired s'.kernel.events = label.handed.toList ++ acquired s.kernel.events := by
  cases label with
  | construct socketFD remoteIP remotePort sock =>
    simp only [State.step] at hstep
    by_cases hfd : 0 ≤ socketFD
    · rw [if_pos hfd] at hstep
      split at hstep
      · cases hstep
      · next hfree =>
        obtain rfl := Option.some.inj hstep
        refine ⟨h.construct rfl (.inl ⟨hfd, Bool.eq_false_iff.mpr hfree, rfl⟩), ?_⟩
        rw [Label.handed, if_pos hfd]
        rfl
    · rw [if_neg hfd] at hstep
      obtain rfl := Option.some.inj hstep
      refine ⟨h.construct rfl (.inr ⟨hfd, rfl⟩), ?_⟩
      rw [Label.handed, if_neg hfd]
      rfl
  | moveConstruct j =>
    obtain ⟨other, hother, rfl⟩ := Option.map_eq_some_iff.mp hstep
    exact ⟨h.moveConstruct hother rfl rfl, rfl⟩
  | moveAssign i j =>
    obtain ⟨this, hthis, hstep⟩ := Option.bind_eq_some_iff.mp hstep
    by_cases hij : i = j
    · rw [if_pos hij] at hstep
      obtain rfl := Option.some.inj hstep
      exact ⟨h, rfl⟩
    · rw [if_neg hij] at hstep
      obtain ⟨other, hother, rfl⟩ := Option.map_eq_some_iff.mp hstep
      exact h.moveAssign hthis hij hother rfl rfl
  | close i =>
    obtain ⟨obj, hobj, rfl⟩ := Option.map_eq_some_iff.mp hstep
    exact h.close hobj (.inr rfl) rfl rfl
  | forceShutdown i => exact h.act keeps_forceShutdown hstep
  | sendData i data => exact h.act (fun sess => keeps_sendData sess data) hstep
  | receive i sz => exact h.act (fun sess => keeps_receive sess sz) hstep
  | receiveExact i sz => exact h.act (fun sess => keeps_receiveLoop sz sess sz []) hstep
  | destroy i =>
    obtain ⟨obj, hobj, rfl⟩ := Option.map_eq_some_iff.mp hstep
    exact h.close hobj (.inl rfl) rfl rfl

end Steps

theorem sound_init (sock : Int → σ) : Sound (State.init sock) where
  owned :=
    { exclusive := { taken := by rintro i fd ⟨⟩, sole := by rintro i i' fd ⟨⟩ }
      owner := by rintro fd ⟨⟩
      lawful := trivial }
  active := fun _ hmem => absurd hmem List.not_mem_nil

/-- In every run the objects are sound, and the descriptors that were acquired
are those that were handed over to a constructor. -/
theorem sound_run [Socket σ] {sock : Int → σ} {labels : List (Label σ)} {s : State σ}
    (hrun : Runs State.step anyStep (State.init sock) labels s) :
    Sound s ∧ acquired s.kernel.events = (labels.filterMap Label.handed).reverse := by
  refine hrun.history (I := fun labels s => Sound s ∧
    acquired s.kernel.events = (labels.filterMap Label.handed).reverse) ?_ ⟨sound_init sock, rfl⟩
  rintro labels s label s' ⟨hsound, hacquired⟩ - hstep
  obtain ⟨hsound', hstep'⟩ := sound_step hsound hstep
  refine ⟨hsound', ?_⟩
  rw [hstep', hacquired, List.filterMap_append, List.reverse_append]
  cases hhanded : label.handed <;> simp [hhanded]

/-- The descriptors in every run.  Each one that was handed over and is not yet
closed has exactly one owner.  No descriptor is used when it is not open, and none is closed twice.
An active object owns an open descriptor.  When all objects are destroyed, what
was closed is what was handed over to the constructors, each as often as it was
handed over. -/
theorem descriptors_owned [Socket σ] {sock : Int → σ} {labels : List (Label σ)} {s : State σ}
    (hrun : Runs State.step anyStep (State.init sock) labels s) :
    (∀ fd, (released s.kernel.events).count fd < (labels.filterMap Label.handed).count fd →
      ∃! i, s.Owns i fd) ∧
    Lawful s.kernel.events ∧
    (∀ i obj, s.object i = some obj → obj.active = true →
      s.Owns i obj.socketFD ∧ isOpen s.kernel.events obj.socketFD = true) ∧
    ((∀ i, s.object i = none) →
      (released s.kernel.events).Perm (labels.filterMap Label.handed)) := by
  obtain ⟨hsound, hacquired⟩ := sound_run hrun
  refine ⟨?_, hsound.owned.lawful, ?_, ?_⟩
  · intro fd hlt
    have hcount := count_acquired hsound.owned.lawful fd
    rw [hacquired, List.count_reverse] at hcount
    have hopen : isOpen s.kernel.events fd = true := by
      apply Bool.toNat_eq_one.mp
      have hle := Bool.toNat_le (isOpen s.kernel.events fd)
      omega
    exact hsound.owned.existsUnique_owner hopen
  · intro i obj hobj hactive
    have hfd := hsound.active obj (List.mem_of_getElem? (getElem?_of_object hobj)) hactive
    have howns : s.Owns i obj.socketFD := (owns_iff hobj _).mpr (descriptor_of_nonneg hfd)
    exact ⟨howns, hsound.owned.exclusive.taken howns⟩
  · intro hdestroyed
    have hnone (i : Nat) (fd : Int) : ¬ s.Owns i fd := by
      intro howns
      obtain ⟨slot, hslot, hdescriptor⟩ := Option.bind_eq_some_iff.mp howns
      obtain ⟨obj, rfl, -⟩ := Option.bind_eq_some_iff.mp hdescriptor
      have halive : s.object i = some obj := by rw [State.object, hslot]; rfl
      rw [hdestroyed i] at halive
      cases halive
    have hperm := hsound.owned.perm_of_unowned hnone
    rw [hacquired] at hperm
    exact hperm.trans (List.reverse_perm _)

/-- A socket whose first `send` fails. -/
def failingPeer : Peer := { inbound := [], sends := [none], written := [] }

/-- Two objects on the descriptors 3 and 4.  The first is moved to a new one, and
that one is assigned to the second, then the second to itself.  A `send` fails,
and all are destroyed. -/
def movedLabels : List (Label Peer) :=
  [.construct 3 "10.0.0.1" 31841 failingPeer, .construct 4 "10.0.0.2" 31841 failingPeer,
    .moveConstruct 0, .moveAssign 1 2, .moveAssign 1 1, .receive 0 8, .sendData 1 [7], .close 2,
    .forceShutdown 1, .destroy 2, .destroy 1, .destroy 0]

/-- The assignment closes the descriptor 4, and the destructor the descriptor 3. -/
theorem descriptors_owned_moved :
    ∃ s : State Peer,
      Runs State.step anyStep (State.init fun _ => failingPeer) movedLabels s ∧
      s.kernel.events = [.release 3, .use .send 3, .release 4, .use .shutdown 4, .acquire 4,
        .acquire 3] ∧
      Lawful s.kernel.events := by
  have hexec : (exec State.step (State.init fun _ => failingPeer) movedLabels).map
      (fun s => s.kernel.events) = some [.release 3, .use .send 3, .release 4, .use .shutdown 4,
        .acquire 4, .acquire 3] := by
    decide
  obtain ⟨s, hs, hevents⟩ := Option.map_eq_some_iff.mp hexec
  have hrun := runs_of_exec (G := anyStep) (fun _ _ _ => trivial) hs
  exact ⟨s, hrun, hevents, (descriptors_owned hrun).2.1⟩

end OracleMachine.Network.SessionObjects
