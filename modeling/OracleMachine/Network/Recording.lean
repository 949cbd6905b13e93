import OracleMachine.Network.Session

/-!
# Sockets with a record of their traffic

`Tap σ` is a socket of type `σ` next to the bytes that were sent and read on
it.  The record is written by `recv` and `send` and never read by them, so a
session on a tapped socket does what it does on the socket itself
(`Session.forget_receiveExact`, `Session.forget_sendData`).

The rest says what the operations of a session add to the record, for every
socket.

* `record_receive` and `record_receiveExact`: the bytes in the buffer are the
  bytes that were read, and nothing is sent.
* `record_sendData`: the answer `true` means that all the bytes were sent, the
  answer `false` that a proper prefix of them was.
-/

namespace OracleMachine.Network

/-- The bytes that a `recv` delivers. -/
def RecvOutcome.bytes : RecvOutcome → List UInt8
  | .data bs => bs
  | .wouldBlock => []
  | .error => []

/-- A socket, and the bytes that were sent and read on it. -/
structure Tap (σ : Type) where
  sock : σ
  sent : List UInt8
  read : List UInt8
  deriving DecidableEq

namespace Tap

variable {σ : Type}

/-- A new connection. -/
def ofSocket (sock : σ) : Tap σ := { sock, sent := [], read := [] }

variable [Socket σ]

/-- `recv`, recorded. -/
def recv (tap : Tap σ) (sz : Nat) : RecvOutcome × Tap σ :=
  let out := Socket.recv tap.sock sz
  (out.1, { tap with sock := out.2, read := tap.read ++ out.1.bytes })

/-- `send`, recorded. -/
def send (tap : Tap σ) (bs : List UInt8) : Option Nat × Tap σ :=
  let out := Socket.send tap.sock bs
  (out.1, { tap with sock := out.2, sent := tap.sent ++ bs.take (out.1.getD 0) })

theorem length_recv (tap : Tap σ) (sz : Nat) (bs : List UInt8) (tap' : Tap σ)
    (h : tap.recv sz = (.data bs, tap')) : bs.length ≤ sz :=
  Socket.length_recv tap.sock sz bs (Socket.recv tap.sock sz).2
    (Prod.ext (Prod.mk.inj h).1 rfl)

theorem send_pos (tap : Tap σ) (bs : List UInt8) (n : Nat) (tap' : Tap σ)
    (h : tap.send bs = (some n, tap')) (hne : bs ≠ []) : 0 < n :=
  Socket.send_pos tap.sock bs n (Socket.send tap.sock bs).2
    (Prod.ext (Prod.mk.inj h).1 rfl) hne

instance : Socket (Tap σ) where
  recv := recv
  send := send
  shutdown := fun tap => { tap with sock := Socket.shutdown tap.sock }
  close := fun tap => { tap with sock := Socket.close tap.sock }
  length_recv := length_recv
  send_pos := send_pos

theorem recv_eq (tap : Tap σ) (sz : Nat) :
    Socket.recv tap sz =
      ((Socket.recv tap.sock sz).1,
        { tap with
          sock := (Socket.recv tap.sock sz).2
          read := tap.read ++ (Socket.recv tap.sock sz).1.bytes }) := rfl

theorem send_eq (tap : Tap σ) (bs : List UInt8) :
    Socket.send tap bs =
      ((Socket.send tap.sock bs).1,
        { tap with
          sock := (Socket.send tap.sock bs).2
          sent := tap.sent ++ bs.take ((Socket.send tap.sock bs).1.getD 0) }) := rfl

end Tap

namespace Session

variable {σ : Type} [Socket σ]

/-! ## What the operations keep -/

theorem length_receive_le (sess : Session σ) (sz : Nat) :
    (sess.receive sz).1.bytes.length ≤ sz := by
  unfold receive
  split
  · exact Nat.zero_le _
  · split
    · exact Nat.zero_le _
    · rename_i hrecv
      exact Socket.length_recv _ _ _ _ hrecv
    · exact Nat.zero_le _
    · exact Nat.zero_le _

/-- One turn of the loop: it ends with the bytes it has, or it goes on behind
some more. -/
theorem receiveLoop_succ (fuel : Nat) (sess : Session σ) (sz : Nat) (acc : List UInt8) :
    (receiveLoop (fuel + 1) sess sz acc).1.bytes = acc ∧
        (receiveLoop (fuel + 1) sess sz acc).2 = sess ∨
      acc.length < sz ∧
        (((sess.receive (sz - acc.length)).1.bytes = [] ∧
            (receiveLoop (fuel + 1) sess sz acc).1.bytes = acc ∧
            (receiveLoop (fuel + 1) sess sz acc).2 = (sess.receive (sz - acc.length)).2) ∨
          receiveLoop (fuel + 1) sess sz acc =
            receiveLoop fuel (sess.receive (sz - acc.length)).2 sz
              (acc ++ (sess.receive (sz - acc.length)).1.bytes)) := by
  by_cases hlt : acc.length < sz
  · refine .inr ⟨hlt, ?_⟩
    cases hrecv : sess.receive (sz - acc.length) with
    | mk received sess' =>
    cases received with
    | failed =>
      rw [receiveLoop_failed hlt hrecv]
      refine .inl ⟨rfl, ?_, rfl⟩
      by_cases hacc : acc = []
      · simp [hacc, Received.bytes]
      · simp [hacc, Received.bytes]
    | got bs =>
      by_cases hbs : bs = []
      · rw [receiveLoop, if_pos hlt, hrecv, hbs]
        exact .inl ⟨rfl, rfl, rfl⟩
      · exact .inr (receiveLoop_got hlt hbs hrecv)
  · rw [receiveLoop, if_neg hlt]
    exact .inl ⟨rfl, rfl⟩

theorem isOpen_receiveLoop (fuel : Nat) (sess : Session σ) (sz : Nat) (acc : List UInt8) :
    (receiveLoop fuel sess sz acc).2.isOpen = sess.isOpen := by
  induction fuel generalizing sess acc with
  | zero => rfl
  | succ fuel ih =>
    rcases receiveLoop_succ fuel sess sz acc with ⟨-, h⟩ | ⟨-, ⟨-, -, h⟩ | h⟩
    · rw [h]
    · rw [h, isOpen_receive]
    · rw [h, ih, isOpen_receive]

theorem length_receiveLoop_le (fuel : Nat) (sess : Session σ) (sz : Nat) (acc : List UInt8)
    (hacc : acc.length ≤ sz) : (receiveLoop fuel sess sz acc).1.bytes.length ≤ sz := by
  induction fuel generalizing sess acc with
  | zero => exact hacc
  | succ fuel ih =>
    rcases receiveLoop_succ fuel sess sz acc with ⟨h, -⟩ | ⟨-, ⟨-, h, -⟩ | h⟩
    · rwa [h]
    · rwa [h]
    · have hle := length_receive_le sess (sz - acc.length)
      rw [h]
      apply ih
      rw [List.length_append]
      omega

/-! ## The record of a session -/

/-- A `receive` reads the bytes it puts into the buffer, and sends nothing. -/
theorem record_receive (sess : Session (Tap σ)) (sz : Nat) :
    (sess.receive sz).2.sock.sent = sess.sock.sent ∧
      (sess.receive sz).2.sock.read = sess.sock.read ++ (sess.receive sz).1.bytes := by
  by_cases husable : (!sess.active || !sess.isOpen) = true
  · rw [receive, if_pos husable]
    exact ⟨rfl, (List.append_nil _).symm⟩
  · rw [receive, if_neg husable, Tap.recv_eq]
    generalize Socket.recv sess.sock.sock sz = out
    cases out with
    | mk outcome sock =>
    cases outcome with
    | data bs =>
      cases bs with
      | nil => exact ⟨rfl, rfl⟩
      | cons b bs => exact ⟨rfl, rfl⟩
    | wouldBlock => exact ⟨rfl, rfl⟩
    | error => exact ⟨rfl, rfl⟩

theorem record_receiveLoop (fuel : Nat) (sess : Session (Tap σ)) (sz : Nat)
    (acc : List UInt8) :
    (receiveLoop fuel sess sz acc).2.sock.sent = sess.sock.sent ∧
      ∃ bs, (receiveLoop fuel sess sz acc).1.bytes = acc ++ bs ∧
        (receiveLoop fuel sess sz acc).2.sock.read = sess.sock.read ++ bs := by
  induction fuel generalizing sess acc with
  | zero => exact ⟨rfl, [], (List.append_nil _).symm, (List.append_nil _).symm⟩
  | succ fuel ih =>
    obtain ⟨hsent, hread⟩ := record_receive sess (sz - acc.length)
    rcases receiveLoop_succ fuel sess sz acc with ⟨hb, h⟩ | ⟨-, ⟨hnil, hb, h⟩ | h⟩
    · rw [hb, h]
      exact ⟨rfl, [], (List.append_nil _).symm, (List.append_nil _).symm⟩
    · rw [hb, h, hread, hnil]
      exact ⟨hsent, [], (List.append_nil _).symm, rfl⟩
    · obtain ⟨hsent', bs, hb, hread'⟩ := ih (sess.receive (sz - acc.length)).2
        (acc ++ (sess.receive (sz - acc.length)).1.bytes)
      rw [h, hsent', hread', hb, hread, hsent]
      exact ⟨rfl, _, List.append_assoc _ _ _, List.append_assoc _ _ _⟩

/-- A `receiveExact` reads the bytes it puts into the buffer, and sends
nothing. -/
theorem record_receiveExact (sess : Session (Tap σ)) (sz : Nat) :
    (sess.receiveExact sz).2.sock.sent = sess.sock.sent ∧
      (sess.receiveExact sz).2.sock.read =
        sess.sock.read ++ (sess.receiveExact sz).1.bytes := by
  obtain ⟨hsent, bs, hbytes, hread⟩ := record_receiveLoop sz sess sz []
  refine ⟨hsent, ?_⟩
  rw [List.nil_append] at hbytes
  show (receiveLoop sz sess sz []).2.sock.read = _ ++ (receiveLoop sz sess sz []).1.bytes
  rw [hread, hbytes]

/-- What a send of `bs` does to the record: all the bytes are added, or a
proper prefix of them. -/
def Sends (sess : Session (Tap σ)) (bs : List UInt8) (out : Bool × Session (Tap σ)) : Prop :=
  out.2.sock.read = sess.sock.read ∧
    ∃ done, done <+: bs ∧ out.2.sock.sent = sess.sock.sent ++ done ∧
      (out.1 = true ↔ done = bs)

theorem record_sendLoop (fuel : Nat) (sess : Session (Tap σ)) (bs : List UInt8) :
    Sends sess bs (sess.sendLoop fuel bs) := by
  induction fuel generalizing sess bs with
  | zero =>
    cases bs with
    | nil => exact ⟨rfl, [], List.nil_prefix, by simp [sendLoop], by simp [sendLoop]⟩
    | cons b bs => exact ⟨rfl, [], List.nil_prefix, by simp [sendLoop], by simp [sendLoop]⟩
  | succ fuel ih =>
    cases bs with
    | nil => exact ⟨rfl, [], List.nil_prefix, by simp [sendLoop], by simp [sendLoop]⟩
    | cons b bs =>
      rw [sendLoop, Tap.send_eq]
      generalize Socket.send sess.sock.sock (b :: bs) = out
      cases out with
      | mk taken sock =>
      cases taken with
      | none => exact ⟨rfl, [], List.nil_prefix, rfl, by simp⟩
      | some n =>
        -- the call takes the first `n` bytes, the rest of the loop a prefix of the others
        obtain ⟨hread, done, hpart, hsent, hall⟩ :=
          ih { sess with sock := { sess.sock with
            sock := sock, sent := sess.sock.sent ++ (b :: bs).take n } } ((b :: bs).drop n)
        refine ⟨hread, (b :: bs).take n ++ done, ?_, ?_, ?_⟩
        · have h := (List.prefix_append_right_inj ((b :: bs).take n)).mpr hpart
          rwa [List.take_append_drop] at h
        · exact hsent.trans (List.append_assoc _ _ _)
        · refine hall.trans ?_
          constructor
          · intro h
            rw [h, List.take_append_drop]
          · intro h
            exact List.append_cancel_left (h.trans (List.take_append_drop n (b :: bs)).symm)

/-- A send adds all the bytes to the record exactly when it answers `true`. -/
theorem record_sendData (sess : Session (Tap σ)) {bs : List UInt8} (hbs : bs ≠ []) :
    Sends sess bs (sess.sendData bs) := by
  unfold sendData
  split
  · exact ⟨rfl, [], List.nil_prefix, (List.append_nil _).symm, by simp [hbs.symm]⟩
  · exact record_sendLoop _ _ _

/-! ## The record does not matter -/

/-- A session without its record. -/
def forget (sess : Session (Tap σ)) : Session σ :=
  { isOpen := sess.isOpen, active := sess.active, sock := sess.sock.sock }

theorem forget_receive (sess : Session (Tap σ)) (sz : Nat) :
    sess.forget.receive sz = ((sess.receive sz).1, (sess.receive sz).2.forget) := by
  by_cases husable : (!sess.active || !sess.isOpen) = true
  · rw [receive, receive, if_pos husable, if_pos (by exact husable)]
  · rw [receive, receive, if_neg husable, Tap.recv_eq, if_neg (by exact husable)]
    rw [show Socket.recv sess.forget.sock sz = Socket.recv sess.sock.sock sz from rfl]
    generalize Socket.recv sess.sock.sock sz = out
    cases out with
    | mk outcome sock =>
    cases outcome with
    | data bs =>
      cases bs with
      | nil => rfl
      | cons b bs => rfl
    | wouldBlock => rfl
    | error => rfl

theorem forget_receiveLoop (fuel : Nat) (sess : Session (Tap σ)) (sz : Nat)
    (acc : List UInt8) :
    receiveLoop fuel sess.forget sz acc =
      ((receiveLoop fuel sess sz acc).1, (receiveLoop fuel sess sz acc).2.forget) := by
  induction fuel generalizing sess acc with
  | zero => rfl
  | succ fuel ih =>
    rw [receiveLoop, receiveLoop, forget_receive]
    by_cases hlt : acc.length < sz
    · rw [if_pos hlt, if_pos hlt]
      generalize sess.receive (sz - acc.length) = out
      cases out with
      | mk received sess' =>
      cases received with
      | failed => rfl
      | got bs =>
        cases bs with
        | nil => rfl
        | cons b bs => exact ih sess' (acc ++ b :: bs)
    · rw [if_neg hlt, if_neg hlt]

theorem forget_receiveExact (sess : Session (Tap σ)) (sz : Nat) :
    sess.forget.receiveExact sz =
      ((sess.receiveExact sz).1, (sess.receiveExact sz).2.forget) :=
  forget_receiveLoop sz sess sz []

theorem forget_sendLoop (fuel : Nat) (sess : Session (Tap σ)) (bs : List UInt8) :
    sess.forget.sendLoop fuel bs =
      ((sess.sendLoop fuel bs).1, (sess.sendLoop fuel bs).2.forget) := by
  induction fuel generalizing sess bs with
  | zero => cases bs <;> rfl
  | succ fuel ih =>
    cases bs with
    | nil => rfl
    | cons b bs =>
      rw [sendLoop, sendLoop, Tap.send_eq]
      rw [show Socket.send sess.forget.sock (b :: bs) = Socket.send sess.sock.sock (b :: bs) from
        rfl]
      generalize Socket.send sess.sock.sock (b :: bs) = out
      cases out with
      | mk taken sock =>
      cases taken with
      | none => rfl
      | some n =>
        exact ih { sess with sock := { sess.sock with
          sock := sock, sent := sess.sock.sent ++ (b :: bs).take n } } ((b :: bs).drop n)

theorem forget_sendData (sess : Session (Tap σ)) (bs : List UInt8) :
    sess.forget.sendData bs = ((sess.sendData bs).1, (sess.sendData bs).2.forget) := by
  unfold sendData
  by_cases husable : (!sess.active || bs.isEmpty || !sess.isOpen) = true
  · rw [if_pos husable, if_pos (by exact husable)]
  · rw [if_neg husable, if_neg (by exact husable)]
    exact forget_sendLoop _ _ _

theorem forget_close (sess : Session (Tap σ)) : sess.forget.close = sess.close.forget := by
  obtain ⟨isOpen, active, sock⟩ := sess
  cases isOpen <;> cases active <;> rfl

theorem forget_forceShutdown (sess : Session (Tap σ)) :
    sess.forget.forceShutdown = sess.forceShutdown.forget := by
  obtain ⟨isOpen, active, sock⟩ := sess
  cases isOpen <;> cases active <;> rfl

end Session

end OracleMachine.Network
