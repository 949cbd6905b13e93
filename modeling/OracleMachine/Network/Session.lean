import OracleMachine.Network.Wire
import Mathlib.Tactic.Common

/-!
# Sessions over a socket

`Session` of `libs/om_network` wraps one TCP socket.  The socket is a
parameter of this model: `Socket σ` gives the outcome of one `recv` and of one
`send` system call on a socket in state `σ`, and what `shutdown` and `close` do
to it.  Everything above the system calls is the code of `session.cpp`.

* `Session.receive` is one `recv`, with its three answers: bytes, `0` for a
  timeout, `-1` for an error or a close.
* `Session.receiveExact` loops until it has all the bytes, a timeout or an
  error.  It answers what it has so far, so a short answer does not say
  whether the session is still alive.
* `Session.sendData` loops over `send`, and gives the session up at the first
  failure.
* `Session.close`, `Session.forceShutdown` and `Session.isActive`.

The loops carry a fuel argument.  Every turn moves at least one byte, so the
number of bytes asked for is enough fuel: `receiveLoop_fuel` and
`sendLoop_fuel` say that more fuel changes nothing.

`Peer` is the socket of a server-side session.  What the remote side sends is
fixed in advance as a list of chunks and timeouts, in any division, and
`tokens` forgets the division: it is the byte stream with the timeouts at
their places.  `receiveExact_peer` says that the loop reads the tokens one by
one, whatever the chunks are, and `sendData_peer` that it writes a prefix of
what it is asked to write.

The socket options of the class are left out: no modelled function reads them.
The addresses and the byte counters are fields of `SessionObjects.Object`.
-/

namespace OracleMachine.Network

/-- The outcome of one `recv`.  `data []` is the return value `0`: an orderly
close, or a request for no bytes. -/
inductive RecvOutcome where
  | data (bs : List UInt8)
  | wouldBlock
  | error
  deriving DecidableEq

/-- A connected socket: the outcome of the next `recv` for at most `sz` bytes
and of the next `send`.  `none` is a `send` that returns `0` or less.  What
`shutdown` and `close` do matters to a socket that notes its system calls. -/
class Socket (σ : Type) where
  recv : σ → Nat → RecvOutcome × σ
  send : σ → List UInt8 → Option Nat × σ
  shutdown : σ → σ := id
  close : σ → σ := id
  length_recv : ∀ s sz bs s', recv s sz = (.data bs, s') → bs.length ≤ sz
  send_pos : ∀ s bs n s', send s bs = (some n, s') → bs ≠ [] → 0 < n

/-- `Session`: whether `_socketFD` still holds the descriptor, the `_active`
flag, and the socket behind it. -/
structure Session (σ : Type) where
  isOpen : Bool
  active : Bool
  sock : σ
  deriving DecidableEq

/-- What `receive` and `receiveExact` answer: `-1`, or the bytes they put into
the buffer. -/
inductive Received where
  | failed
  | got (bs : List UInt8)
  deriving DecidableEq

/-- The `int` that `receive` and `receiveExact` return. -/
def Received.ret : Received → Int
  | .failed => -1
  | .got bs => bs.length

/-- The bytes that `receive` and `receiveExact` put into the buffer. -/
def Received.bytes : Received → List UInt8
  | .failed => []
  | .got bs => bs

theorem Received.ret_le (r : Received) : r.ret ≤ r.bytes.length := by
  cases r with
  | failed => simp [Received.ret]
  | got bs => exact le_refl _

namespace Session

variable {σ : Type} [Socket σ]

/-- A session on a freshly connected or accepted descriptor. -/
def ofSocket (s : σ) : Session σ := { isOpen := true, active := true, sock := s }

/-- `Session::isActive`. -/
def isActive (sess : Session σ) : Bool := sess.active

/-- `Session::close`. -/
def close (sess : Session σ) : Session σ :=
  if sess.isOpen then
    -- only attempt shutdown if we consider the connection active
    let sock := if sess.active then Socket.shutdown sess.sock else sess.sock
    { isOpen := false, active := false, sock := Socket.close sock }
  else sess

/-- `Session::forceShutdown`, from another thread. -/
def forceShutdown (sess : Session σ) : Session σ :=
  if sess.isOpen && sess.active then
    { sess with active := false, sock := Socket.shutdown sess.sock }
  else sess

/-- `Session::receive`: a single `recv` call. -/
def receive (sess : Session σ) (sz : Nat) : Received × Session σ :=
  if !sess.active || !sess.isOpen then (.failed, sess)
  else
    match Socket.recv sess.sock sz with
    -- graceful close by peer
    | (.data [], s') => (.failed, { sess with active := false, sock := s' })
    | (.data bs, s') => (.got bs, { sess with sock := s' })
    -- socket timeout, connection still alive
    | (.wouldBlock, s') => (.got [], { sess with sock := s' })
    | (.error, s') => (.failed, { sess with active := false, sock := s' })

/-- The loop of `receiveExact`, with the bytes received so far. -/
def receiveLoop : Nat → Session σ → Nat → List UInt8 → Received × Session σ
  | 0, sess, _, acc => (.got acc, sess)
  | fuel + 1, sess, sz, acc =>
    if acc.length < sz then
      match sess.receive (sz - acc.length) with
      | (.got [], sess') => (.got acc, sess')
      | (.got bs, sess') => receiveLoop fuel sess' sz (acc ++ bs)
      | (.failed, sess') => (if acc = [] then .failed else .got acc, sess')
    else (.got acc, sess)

/-- `Session::receiveExact`. -/
def receiveExact (sess : Session σ) (sz : Nat) : Received × Session σ :=
  receiveLoop sz sess sz []

/-- The loop of `sendData` over the bytes still to send. -/
def sendLoop : Nat → Session σ → List UInt8 → Bool × Session σ
  | _, sess, [] => (true, sess)
  | 0, sess, _ :: _ => (false, sess)
  | fuel + 1, sess, b :: bs =>
    match Socket.send sess.sock (b :: bs) with
    | (none, s') => (false, { sess with active := false, sock := s' })
    | (some n, s') => sendLoop fuel { sess with sock := s' } ((b :: bs).drop n)

/-- `Session::sendData`. -/
def sendData (sess : Session σ) (data : List UInt8) : Bool × Session σ :=
  if !sess.active || data.isEmpty || !sess.isOpen then (false, sess)
  else sendLoop data.length sess data

/-! ## One `receive`, by the outcome of its `recv` -/

section receive

variable {sess : Session σ} {sz : Nat} {s' : σ}

theorem receive_eq (hactive : sess.active = true) (hopen : sess.isOpen = true) :
    sess.receive sz =
      match Socket.recv sess.sock sz with
      | (.data [], s') => (.failed, { sess with active := false, sock := s' })
      | (.data bs, s') => (.got bs, { sess with sock := s' })
      | (.wouldBlock, s') => (.got [], { sess with sock := s' })
      | (.error, s') => (.failed, { sess with active := false, sock := s' }) := by
  unfold receive
  rw [if_neg (by simp [hactive, hopen])]

theorem receive_data (hactive : sess.active = true) (hopen : sess.isOpen = true)
    {b : UInt8} {bs : List UInt8} (h : Socket.recv sess.sock sz = (.data (b :: bs), s')) :
    sess.receive sz = (.got (b :: bs), { sess with sock := s' }) := by
  rw [receive_eq hactive hopen, h]

theorem receive_closed (hactive : sess.active = true) (hopen : sess.isOpen = true)
    (h : Socket.recv sess.sock sz = (.data [], s')) :
    sess.receive sz = (.failed, { sess with active := false, sock := s' }) := by
  rw [receive_eq hactive hopen, h]

theorem receive_error (hactive : sess.active = true) (hopen : sess.isOpen = true)
    (h : Socket.recv sess.sock sz = (.error, s')) :
    sess.receive sz = (.failed, { sess with active := false, sock := s' }) := by
  rw [receive_eq hactive hopen, h]

theorem receiveLoop_got {fuel : Nat} {acc : List UInt8} {sess' : Session σ}
    (hlt : acc.length < sz) {bs : List UInt8} (hbs : bs ≠ [])
    (h : sess.receive (sz - acc.length) = (.got bs, sess')) :
    receiveLoop (fuel + 1) sess sz acc = receiveLoop fuel sess' sz (acc ++ bs) := by
  rw [receiveLoop, if_pos hlt, h]
  cases bs with
  | nil => exact absurd rfl hbs
  | cons b bs => rfl

theorem receiveLoop_failed {fuel : Nat} {acc : List UInt8} {sess' : Session σ}
    (hlt : acc.length < sz) (h : sess.receive (sz - acc.length) = (.failed, sess')) :
    receiveLoop (fuel + 1) sess sz acc = (if acc = [] then .failed else .got acc, sess') := by
  rw [receiveLoop, if_pos hlt, h]

end receive

/-! ## Closing -/

theorem isOpen_receive (sess : Session σ) (sz : Nat) :
    (sess.receive sz).2.isOpen = sess.isOpen := by
  unfold receive
  split
  · rfl
  · split <;> rfl

theorem isOpen_sendLoop (fuel : Nat) (sess : Session σ) (bs : List UInt8) :
    (sess.sendLoop fuel bs).2.isOpen = sess.isOpen := by
  induction fuel generalizing sess bs with
  | zero => cases bs <;> rfl
  | succ fuel ih =>
    cases bs with
    | nil => rfl
    | cons b bs =>
      rw [sendLoop]
      split
      · rfl
      · rw [ih]

/-- Only an active and open session sends. -/
theorem usable_of_sendData {sess sess' : Session σ} {data : List UInt8}
    (h : sess.sendData data = (true, sess')) :
    sess.active = true ∧ sess.isOpen = true ∧ data ≠ [] := by
  unfold sendData at h
  split at h
  · simp at h
  · rename_i husable
    simpa [and_assoc, and_comm, and_left_comm] using husable

theorem isOpen_sendData (sess : Session σ) (data : List UInt8) :
    (sess.sendData data).2.isOpen = sess.isOpen := by
  unfold sendData
  split
  · rfl
  · exact isOpen_sendLoop _ _ _

/-- Closing an open session makes it inactive. -/
theorem active_close {sess : Session σ} (hopen : sess.isOpen = true) :
    sess.close.active = false := by
  rw [close, if_pos hopen]

/-- A shutdown session that is still active is as it was. -/
theorem forceShutdown_active {sess : Session σ} (h : sess.forceShutdown.active = true) :
    sess.forceShutdown = sess := by
  unfold forceShutdown at h ⊢
  split at h
  · simp at h
  · rename_i hif
    rw [if_neg hif]

/-! ## The fuel of the loops -/

/-- As soon as the fuel covers the bytes still missing, extra fuel changes
nothing: every turn of the loop receives at least one byte. -/
theorem receiveLoop_fuel (fuel extra : Nat) (sess : Session σ) (sz : Nat)
    (acc : List UInt8) (hfuel : sz ≤ acc.length + fuel) :
    receiveLoop (fuel + extra) sess sz acc = receiveLoop fuel sess sz acc := by
  induction fuel generalizing sess acc with
  | zero =>
    cases extra with
    | zero => rfl
    | succ extra =>
      rw [Nat.zero_add, receiveLoop, receiveLoop, if_neg (by omega)]
  | succ fuel ih =>
    rw [show fuel + 1 + extra = fuel + extra + 1 by omega, receiveLoop, receiveLoop]
    split
    · split
      · rfl
      · rename_i bs _ hne _
        refine ih _ _ ?_
        have hpos : 0 < bs.length := List.length_pos_iff.mpr (by
          intro h
          exact hne (by rw [h]))
        rw [List.length_append]
        omega
      · rfl
    · rfl

/-- As soon as the fuel covers the bytes still to send, extra fuel changes
nothing: every turn of the loop sends at least one byte. -/
theorem sendLoop_fuel (fuel extra : Nat) (sess : Session σ) (bs : List UInt8)
    (hfuel : bs.length ≤ fuel) :
    sendLoop (fuel + extra) sess bs = sendLoop fuel sess bs := by
  induction fuel generalizing sess bs with
  | zero =>
    obtain rfl : bs = [] := List.eq_nil_of_length_eq_zero (by omega)
    rw [sendLoop, sendLoop]
  | succ fuel ih =>
    cases bs with
    | nil => rw [sendLoop, sendLoop]
    | cons b bs =>
      rw [show fuel + 1 + extra = fuel + extra + 1 by omega, sendLoop, sendLoop]
      split
      · rfl
      · rename_i n s' hsend
        have hpos : 0 < n := Socket.send_pos _ _ _ _ hsend (by simp)
        refine ih _ _ ?_
        rw [List.length_drop]
        omega

end Session

/-! ## Byte streams with timeouts -/

/-- One read of exactly `n` bytes from a stream: it is complete, or a timeout
cuts it, or the stream ends first.  `bs` are the bytes read. -/
inductive Read where
  | full (bs : List UInt8) (rest : List (Option UInt8))
  | stalled (bs : List UInt8) (rest : List (Option UInt8))
  | ended (bs : List UInt8)
  deriving DecidableEq

/-- The bytes that were read. -/
def Read.bytes : Read → List UInt8
  | .full bs _ => bs
  | .stalled bs _ => bs
  | .ended bs => bs

/-- The same read behind bytes that are already there. -/
def Read.prepend (as : List UInt8) : Read → Read
  | .full bs rest => .full (as ++ bs) rest
  | .stalled bs rest => .stalled (as ++ bs) rest
  | .ended bs => .ended (as ++ bs)

/-- Read `n` bytes.  A token is a byte, or `none` for a timeout. -/
def readExact : Nat → List (Option UInt8) → Read
  | 0, ts => .full [] ts
  | _ + 1, [] => .ended []
  | _ + 1, none :: ts => .stalled [] ts
  | n + 1, some b :: ts => (readExact n ts).prepend [b]

@[simp] theorem Read.prepend_nil (r : Read) : r.prepend [] = r := by
  cases r <;> rfl

theorem Read.prepend_prepend (as bs : List UInt8) (r : Read) :
    (r.prepend bs).prepend as = r.prepend (as ++ bs) := by
  cases r <;> simp [Read.prepend]

/-- A read takes what it wants from the first chunk and goes on behind it. -/
theorem readExact_append (chunk : List UInt8) (n : Nat) (ts : List (Option UInt8)) :
    readExact n (chunk.map some ++ ts) =
      (readExact (n - (chunk.take n).length) ((chunk.drop n).map some ++ ts)).prepend
        (chunk.take n) := by
  induction chunk generalizing n with
  | nil => simp
  | cons b chunk ih =>
    cases n with
    | zero => simp
    | succ n =>
      rw [List.map_cons, List.cons_append, readExact, ih, Read.prepend_prepend,
        List.take_succ_cons, List.drop_succ_cons, List.length_cons,
        Nat.add_sub_add_right]
      rfl

/-- A read of a whole first chunk. -/
theorem readExact_append_length (chunk : List UInt8) (ts : List (Option UInt8)) :
    readExact chunk.length (chunk.map some ++ ts) = .full chunk ts := by
  rw [readExact_append, List.take_length, Nat.sub_self, List.drop_length]
  simp [readExact, Read.prepend]

/-- A complete read takes the bytes that stand first. -/
theorem readExact_eq_full {n : Nat} {ts rest : List (Option UInt8)} {bs : List UInt8}
    (h : readExact n ts = .full bs rest) :
    bs.length = n ∧ ts = bs.map some ++ rest := by
  induction n generalizing ts bs rest with
  | zero =>
    rw [readExact, Read.full.injEq] at h
    simp [← h.1, h.2]
  | succ n ih =>
    match ts with
    | [] => simp [readExact] at h
    | none :: ts => simp [readExact] at h
    | some b :: ts =>
      rw [readExact] at h
      cases hr : readExact n ts with
      | full bs' rest' =>
        rw [hr, Read.prepend, Read.full.injEq] at h
        obtain ⟨hlen, hts⟩ := ih hr
        simp [← h.1, ← h.2, hlen, hts]
      | stalled bs' rest' => simp [hr, Read.prepend] at h
      | ended bs' => simp [hr, Read.prepend] at h

/-- A read that a timeout cuts has fewer bytes than it wants. -/
theorem readExact_eq_stalled {n : Nat} {ts rest : List (Option UInt8)} {bs : List UInt8}
    (h : readExact n ts = .stalled bs rest) :
    bs.length < n ∧ ts = bs.map some ++ none :: rest := by
  induction n generalizing ts bs rest with
  | zero => simp [readExact] at h
  | succ n ih =>
    match ts with
    | [] => simp [readExact] at h
    | none :: ts =>
      rw [readExact, Read.stalled.injEq] at h
      simp [← h.1, h.2]
    | some b :: ts =>
      rw [readExact] at h
      cases hr : readExact n ts with
      | full bs' rest' => simp [hr, Read.prepend] at h
      | stalled bs' rest' =>
        rw [hr, Read.prepend, Read.stalled.injEq] at h
        obtain ⟨hlen, hts⟩ := ih hr
        simp [← h.1, ← h.2, hlen, hts]
      | ended bs' => simp [hr, Read.prepend] at h

/-- A read that the end of the stream cuts has fewer bytes than it wants. -/
theorem readExact_eq_ended {n : Nat} {ts : List (Option UInt8)} {bs : List UInt8}
    (h : readExact n ts = .ended bs) : bs.length < n ∧ ts = bs.map some := by
  induction n generalizing ts bs with
  | zero => simp [readExact] at h
  | succ n ih =>
    match ts with
    | [] =>
      rw [readExact, Read.ended.injEq] at h
      simp [← h]
    | none :: ts => simp [readExact] at h
    | some b :: ts =>
      rw [readExact] at h
      cases hr : readExact n ts with
      | full bs' rest' => simp [hr, Read.prepend] at h
      | stalled bs' rest' => simp [hr, Read.prepend] at h
      | ended bs' =>
        rw [hr, Read.prepend, Read.ended.injEq] at h
        obtain ⟨hlen, hts⟩ := ih hr
        simp [← h, hlen, hts]

/-- A read that is not complete has fewer bytes than it wants. -/
theorem length_bytes_readExact_lt {n : Nat} {ts : List (Option UInt8)}
    (h : ∀ bs rest, readExact n ts ≠ .full bs rest) : (readExact n ts).bytes.length < n := by
  cases hr : readExact n ts with
  | full bs rest => exact absurd hr (h bs rest)
  | stalled bs rest => exact (readExact_eq_stalled hr).1
  | ended bs => exact (readExact_eq_ended hr).1

/-- The bytes in front of the first timeout. -/
def burst : List (Option UInt8) → List UInt8
  | some b :: ts => b :: burst ts
  | _ => []

@[simp] theorem burst_append (bs : List UInt8) (ts : List (Option UInt8)) :
    burst (bs.map some ++ ts) = bs ++ burst ts := by
  induction bs with
  | nil => rfl
  | cons b bs ih => rw [List.map_cons, List.cons_append, burst, ih, List.cons_append]

/-- A read is complete as long as the burst has enough bytes. -/
theorem length_burst_lt {n : Nat} {ts : List (Option UInt8)}
    (h : ∀ bs rest, readExact n ts ≠ .full bs rest) : (burst ts).length < n := by
  cases hr : readExact n ts with
  | full bs rest => exact absurd hr (h bs rest)
  | stalled bs rest =>
    obtain ⟨hlen, rfl⟩ := readExact_eq_stalled hr
    simpa [burst] using hlen
  | ended bs =>
    obtain ⟨hlen, rfl⟩ := readExact_eq_ended hr
    have hburst := burst_append bs []
    rw [List.append_nil] at hburst
    simpa [hburst, burst] using hlen

theorem burst_mono {ts us : List (Option UInt8)} (h : ts <+: us) :
    burst ts <+: burst us := by
  obtain ⟨vs, rfl⟩ := h
  induction ts with
  | nil => exact List.nil_prefix
  | cons t ts ih =>
    cases t with
    | none => exact List.nil_prefix
    | some b => exact List.cons_prefix_cons.mpr ⟨rfl, ih⟩

/-! ## The socket of a server-side session -/

/-- What the remote side does next: a chunk of at least one byte, nothing for
as long as the receive timeout, or a broken connection. -/
inductive Inbound where
  | data (b : UInt8) (bs : List UInt8)
  | timeout
  | error
  deriving DecidableEq

/-- The socket of a server-side session.  `inbound` is what the remote side
still sends before it closes.  `sends` are the outcomes of the next `send`
calls: `some k` takes at most `k + 1` bytes, `none` fails, and calls beyond
the list take everything.  `written` is what has been sent. -/
structure Peer where
  inbound : List Inbound
  sends : List (Option Nat)
  written : List UInt8
  deriving DecidableEq

namespace Peer

/-- The stream of a list of arrivals, without its division into chunks. -/
def tokens : List Inbound → List (Option UInt8)
  | [] => []
  | .data b bs :: rest => (b :: bs).map some ++ tokens rest
  | .timeout :: rest => none :: tokens rest
  | .error :: _ => []

/-- What stays of a chunk that was read in part. -/
def putBack : List UInt8 → List Inbound → List Inbound
  | [], rest => rest
  | b :: bs, rest => .data b bs :: rest

@[simp] theorem tokens_putBack (bs : List UInt8) (rest : List Inbound) :
    tokens (putBack bs rest) = bs.map some ++ tokens rest := by
  cases bs with
  | nil => rfl
  | cons b bs => rfl

/-- `recv` on the socket. -/
def recv (p : Peer) (sz : Nat) : RecvOutcome × Peer :=
  match p.inbound with
  | [] => (.data [], p)
  | .data b bs :: rest =>
    (.data ((b :: bs).take sz),
      { p with inbound := putBack ((b :: bs).drop sz) rest })
  | .timeout :: rest => (.wouldBlock, { p with inbound := rest })
  | .error :: rest => (.error, { p with inbound := rest })

/-- `send` on the socket. -/
def send (p : Peer) (bs : List UInt8) : Option Nat × Peer :=
  match p.sends with
  | [] => (some bs.length, { p with written := p.written ++ bs })
  | none :: rest => (none, { p with sends := rest })
  | some k :: rest =>
    (some (min (k + 1) bs.length),
      { p with sends := rest, written := p.written ++ bs.take (k + 1) })

instance : Socket Peer where
  recv := recv
  send := send
  length_recv := by
    intro s sz bs s' h
    simp only [recv] at h
    split at h <;> simp only [Prod.mk.injEq, RecvOutcome.data.injEq, reduceCtorEq,
      false_and] at h
    · simp [← h.1]
    · rw [← h.1, List.length_take]
      exact Nat.min_le_left _ _
  send_pos := by
    intro s bs n s' h hne
    have hpos : 0 < bs.length := List.length_pos_iff.mpr hne
    simp only [send] at h
    split at h <;> simp only [Prod.mk.injEq, Option.some.injEq, reduceCtorEq,
      false_and] at h
    · omega
    · omega

/-- A `send` fails, or writes the first bytes of what it is given.  `used` are
the outcomes it takes from the list. -/
theorem send_cases (p : Peer) (bs : List UInt8) :
    (∃ sends, p.sends = none :: sends ∧
      Socket.send p bs = (none, { p with sends := sends })) ∨
    (∃ n used sends, p.sends = used ++ sends ∧ none ∉ used ∧
      Socket.send p bs =
        (some n, { p with sends := sends, written := p.written ++ bs.take n })) := by
  obtain ⟨inbound, sends, written⟩ := p
  match sends with
  | [] => exact .inr ⟨bs.length, [], [], rfl, by simp, by simp [Socket.send, send]⟩
  | none :: sends => exact .inl ⟨sends, rfl, rfl⟩
  | some k :: sends =>
    exact .inr ⟨min (k + 1) bs.length, [some k], sends, rfl, by simp,
      by simp [Socket.send, send, List.take_eq_take_iff]⟩

end Peer

namespace Session

/-- The session when its peer has `inb` left to send. -/
def withInbound (sess : Session Peer) (inb : List Inbound) : Session Peer :=
  { sess with sock := { sess.sock with inbound := inb } }

/-- The session after the peer closed or broke the connection. -/
def lost (sess : Session Peer) (inb : List Inbound) : Session Peer :=
  { sess.withInbound inb with active := false }

section fields

variable (sess : Session Peer) (inb : List Inbound)

@[simp] theorem withInbound_active : (sess.withInbound inb).active = sess.active := rfl

@[simp] theorem withInbound_isOpen : (sess.withInbound inb).isOpen = sess.isOpen := rfl

@[simp] theorem withInbound_inbound : (sess.withInbound inb).sock.inbound = inb := rfl

@[simp] theorem withInbound_sends :
    (sess.withInbound inb).sock.sends = sess.sock.sends := rfl

@[simp] theorem withInbound_written :
    (sess.withInbound inb).sock.written = sess.sock.written := rfl

@[simp] theorem lost_sends : (sess.lost inb).sock.sends = sess.sock.sends := rfl

@[simp] theorem lost_written : (sess.lost inb).sock.written = sess.sock.written := rfl

end fields

/-- What a reading loop answers when the stream gives the read. -/
def Answers (sess : Session Peer) : Read → Received × Session Peer → Prop
  | .full bs rest, out =>
    ∃ inb, out = (.got bs, sess.withInbound inb) ∧ Peer.tokens inb = rest
  | .stalled bs rest, out =>
    ∃ inb, out = (.got bs, sess.withInbound inb) ∧ Peer.tokens inb = rest
  | .ended bs, out =>
    ∃ inb, out = (if bs = [] then .failed else .got bs, sess.lost inb)

theorem answers_withInbound (sess : Session Peer) (inb : List Inbound) (r : Read)
    (out : Received × Session Peer) :
    (sess.withInbound inb).Answers r out = sess.Answers r out := by
  cases r <;> rfl

/-- The buffer holds the bytes of the read. -/
theorem bytes_of_answers {sess : Session Peer} {r : Read} {out : Received × Session Peer}
    (h : sess.Answers r out) : out.1.bytes = r.bytes := by
  cases r with
  | full bs rest =>
    obtain ⟨inb, rfl, -⟩ := h
    rfl
  | stalled bs rest =>
    obtain ⟨inb, rfl, -⟩ := h
    rfl
  | ended bs =>
    obtain ⟨inb, rfl⟩ := h
    simp only [Read.bytes]
    split
    · simp [Received.bytes, *]
    · rfl

/-- A read writes nothing. -/
theorem sock_of_answers {sess : Session Peer} {r : Read} {out : Received × Session Peer}
    (h : sess.Answers r out) :
    out.2.sock.written = sess.sock.written ∧ out.2.sock.sends = sess.sock.sends := by
  cases r with
  | full bs rest =>
    obtain ⟨inb, rfl, -⟩ := h
    exact ⟨rfl, rfl⟩
  | stalled bs rest =>
    obtain ⟨inb, rfl, -⟩ := h
    exact ⟨rfl, rfl⟩
  | ended bs =>
    obtain ⟨inb, rfl⟩ := h
    exact ⟨rfl, rfl⟩

/-- One `receive` of at least one byte, by what the peer does next. -/
theorem receive_peer (sess : Session Peer) (n : Nat) (hactive : sess.active = true)
    (hopen : sess.isOpen = true) :
    sess.receive (n + 1) =
      match sess.sock.inbound with
      | [] => (.failed, sess.lost [])
      | .data b bs :: rest =>
        (.got ((b :: bs).take (n + 1)),
          sess.withInbound (Peer.putBack ((b :: bs).drop (n + 1)) rest))
      | .timeout :: rest => (.got [], sess.withInbound rest)
      | .error :: rest => (.failed, sess.lost rest) := by
  obtain ⟨isOpen, active, ⟨inbound, sends, written⟩⟩ := sess
  simp only at hactive hopen
  subst hactive hopen
  match inbound with
  | [] => rfl
  | .data b bs :: rest => rfl
  | .timeout :: rest => rfl
  | .error :: rest => rfl

private theorem receiveLoop_peer (fuel : Nat) (sess : Session Peer) (sz : Nat)
    (acc : List UInt8) (hactive : sess.active = true) (hopen : sess.isOpen = true)
    (hacc : acc.length ≤ sz) (hfuel : sz ≤ acc.length + fuel) :
    sess.Answers
      ((readExact (sz - acc.length) (Peer.tokens sess.sock.inbound)).prepend acc)
      (receiveLoop fuel sess sz acc) := by
  induction fuel generalizing sess acc with
  | zero =>
    rw [receiveLoop, show sz - acc.length = 0 by omega, readExact, Read.prepend,
      List.append_nil]
    exact ⟨sess.sock.inbound, rfl, rfl⟩
  | succ fuel ih =>
    rw [receiveLoop]
    split
    · rename_i hlt
      obtain ⟨n, hn⟩ : ∃ n, sz - acc.length = n + 1 := ⟨sz - acc.length - 1, by omega⟩
      rw [hn, receive_peer sess n hactive hopen]
      match hinb : sess.sock.inbound with
      | [] => exact ⟨[], by simp⟩
      | .timeout :: rest => exact ⟨rest, by simp, rfl⟩
      | .error :: rest => exact ⟨rest, by simp⟩
      | .data b bs :: rest =>
        -- one chunk arrives; the loop goes on behind it
        have hih := ih (sess.withInbound (Peer.putBack ((b :: bs).drop (n + 1)) rest))
          (acc ++ (b :: bs).take (n + 1)) hactive hopen
          (by simp only [List.length_append, List.length_take]; omega)
          (by simp only [List.length_append, List.length_take, List.length_cons]; omega)
        rw [answers_withInbound, List.length_append, ← Nat.sub_sub, hn] at hih
        rw [Peer.tokens, readExact_append, Read.prepend_prepend,
          ← Peer.tokens_putBack]
        exact hih
    · rw [show sz - acc.length = 0 by omega, readExact, Read.prepend, List.append_nil]
      exact ⟨sess.sock.inbound, rfl, rfl⟩

/-- `receiveExact` reads the stream, whatever the chunks are. -/
theorem receiveExact_peer (sess : Session Peer) (sz : Nat)
    (hactive : sess.active = true) (hopen : sess.isOpen = true) :
    sess.Answers (readExact sz (Peer.tokens sess.sock.inbound))
      (sess.receiveExact sz) := by
  have h := receiveLoop_peer sz sess sz [] hactive hopen (by simp) (by simp)
  simpa [receiveExact] using h

/-- The session when `pre` has been written to the peer. -/
def withWritten (sess : Session Peer) (sends : List (Option Nat)) (pre : List UInt8) :
    Session Peer :=
  { sess with sock := { sess.sock with sends := sends, written := sess.sock.written ++ pre } }

private theorem sendLoop_peer (fuel : Nat) (sess : Session Peer) (bs : List UInt8)
    (hactive : sess.active = true) (hfuel : bs.length ≤ fuel) :
    ∃ ok used sends pre,
      sendLoop fuel sess bs = (ok, { sess.withWritten sends pre with active := ok }) ∧
        sess.sock.sends = used ++ sends ∧ (ok = true ↔ none ∉ used) ∧
        pre <+: bs ∧ (ok = true ↔ pre = bs) := by
  induction fuel generalizing sess bs with
  | zero =>
    obtain rfl : bs = [] := List.eq_nil_of_length_eq_zero (by omega)
    exact ⟨true, [], sess.sock.sends, [], by simp [sendLoop, withWritten, ← hactive],
      rfl, by simp, by simp⟩
  | succ fuel ih =>
    cases bs with
    | nil =>
      exact ⟨true, [], sess.sock.sends, [], by simp [sendLoop, withWritten, ← hactive],
        rfl, by simp, by simp⟩
    | cons b bs =>
      rw [sendLoop]
      rcases Peer.send_cases sess.sock (b :: bs) with
        ⟨sends, hsends, hsend⟩ | ⟨n, used, sends, hsends, hused, hsend⟩
      · refine ⟨false, [none], sends, [], ?_, hsends, by simp, by simp, by simp⟩
        simp [hsend, withWritten]
      · have hpos : 0 < n := Socket.send_pos _ _ _ _ hsend (by simp)
        obtain ⟨ok, used', sends', pre, hloop, hsends', hused', hpre, hok⟩ :=
          ih (sess.withWritten sends ((b :: bs).take n)) ((b :: bs).drop n) hactive
            (by rw [List.length_drop]; omega)
        have hsplit := List.take_append_drop n (b :: bs)
        refine ⟨ok, used ++ used', sends', (b :: bs).take n ++ pre, ?_, ?_, ?_, ?_, ?_⟩
        · rw [hsend]
          simpa [withWritten] using hloop
        · rw [hsends, List.append_assoc, ← hsends']
          rfl
        · simp [hused', hused]
        · rw [← List.prefix_append_right_inj ((b :: bs).take n), hsplit] at hpre
          exact hpre
        · rw [← List.append_right_inj ((b :: bs).take n), hsplit] at hok
          exact hok

/-- `sendData` writes a prefix of its data: all of it exactly when it answers
`true`, which is when none of its `send` calls fails.  Otherwise the session is
given up. -/
theorem sendData_peer (sess : Session Peer) (data : List UInt8)
    (hactive : sess.active = true) (hopen : sess.isOpen = true) (hdata : data ≠ []) :
    ∃ ok used sends pre,
      sess.sendData data = (ok, { sess.withWritten sends pre with active := ok }) ∧
        sess.sock.sends = used ++ sends ∧ (ok = true ↔ none ∉ used) ∧
        pre <+: data ∧ (ok = true ↔ pre = data) := by
  rw [sendData, if_neg (by simp [hactive, hopen, hdata])]
  exact sendLoop_peer _ sess data hactive (le_refl _)

end Session

end OracleMachine.Network
