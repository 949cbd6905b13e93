import OracleMachine.Lib.Transition
import OracleMachine.Network.Framing
import OracleMachine.Node.Retries

/-!
# The client of an oracle service

`InterfaceClient` keeps one connection to the service of its interface and
processes one request after the other on it, with the code of `Node.Retries`.

The other side of the connection is a `Service`: on each connection it answers
the complete queries in order, with one frame each.  A `Channel` is the
client's socket on such a connection.  It knows the bytes sent so far and how
many reply bytes were read; what there is to read follows from the queries
(`Channel.unread`).  How long the service takes and how the network divides the
bytes is the choice of the environment, one `Attempt` per attempt: the outcomes
of the connect, of the `send` calls, of the `recv` calls for the header and of
the single `recv` for the payload, and whether another thread shuts the session
down.

* `Clean` is the state a session has to be in between two requests: every query
  is answered and every reply is read.
* `exchange_spec` is one attempt, `processQueryRequest_spec` one request.
* `replies_correlate` is about whole runs in which no `recv` for a header times
  out.  `late_reply_is_delivered` shows what a timeout there does.
-/

namespace OracleMachine.Node

open Lib.Transition Network Network.Wire Network.Framing
open Retries (Client Conditions QueryData emptyResult maxSendRetries resize)

/-- The oracle service: its reply, on a connection, to the last of the queries
that it received there. -/
abbrev Service := Nat → List Frame → Frame

/-- The outcome of a `recv` that is up to the environment: at most `n + 1`
bytes, a timeout, a close or an error. -/
inductive RecvChoice where
  | data (n : Nat)
  | timeout
  | closed
  | error
  deriving DecidableEq

/-- The client's socket on a connection to the service. -/
structure Channel (service : Service) where
  conn : Nat
  sent : List UInt8
  consumed : Nat
  sends : List (Option Nat)
  recvs : List RecvChoice
  deriving DecidableEq

namespace Channel

variable {service : Service}

/-- The queries that have arrived in full. -/
def queries (ch : Channel service) : List Frame := framesOf (2 ^ 24) (ch.sent.map some)

/-- The replies to `qs` on a connection that has seen `before`. -/
def replyStream (service : Service) (conn : Nat) : List Frame → List Frame → List UInt8
  | _, [] => []
  | before, q :: qs =>
    (service conn (before ++ [q])).bytes ++ replyStream service conn (before ++ [q]) qs

/-- The reply bytes that have not been read. -/
def unread (ch : Channel service) : List UInt8 :=
  (replyStream service ch.conn [] ch.queries).drop ch.consumed

/-- Deliver at most `n` bytes; without bytes the call blocks until its
timeout. -/
def deliver (ch : Channel service) (n : Nat) : RecvOutcome × Channel service :=
  match ch.unread.take n with
  | [] => (.wouldBlock, ch)
  | b :: bs => (.data (b :: bs), { ch with consumed := ch.consumed + (b :: bs).length })

/-- `recv` on the socket.  A call for no bytes answers `0`. -/
def recv (ch : Channel service) (sz : Nat) : RecvOutcome × Channel service :=
  if sz = 0 then (.data [], ch)
  else
    match ch.recvs with
    | [] => ch.deliver sz
    | .data n :: rest => deliver { ch with recvs := rest } (min (n + 1) sz)
    | .timeout :: rest => (.wouldBlock, { ch with recvs := rest })
    | .closed :: rest => (.data [], { ch with recvs := rest })
    | .error :: rest => (.error, { ch with recvs := rest })

/-- `send` on the socket. -/
def send (ch : Channel service) (bs : List UInt8) : Option Nat × Channel service :=
  match ch.sends with
  | [] => (some bs.length, { ch with sent := ch.sent ++ bs })
  | none :: rest => (none, { ch with sends := rest })
  | some k :: rest =>
    (some (min (k + 1) bs.length),
      { ch with sends := rest, sent := ch.sent ++ bs.take (k + 1) })

theorem length_deliver {ch ch' : Channel service} {n : Nat} {bs : List UInt8}
    (h : ch.deliver n = (.data bs, ch')) : bs.length ≤ n := by
  unfold deliver at h
  split at h
  · simp at h
  · rename_i b bs' htake
    simp only [Prod.mk.injEq, RecvOutcome.data.injEq] at h
    rw [← h.1, ← htake, List.length_take]
    omega

/-- With bytes to read, a call for some gets some. -/
theorem deliver_eq (ch : Channel service) {n : Nat} (hn : 0 < n) (hunread : ch.unread ≠ []) :
    ∃ m b bs, 0 < m ∧ m ≤ n ∧ m ≤ ch.unread.length ∧ ch.unread.take m = b :: bs ∧
      ch.deliver n = (.data (b :: bs), { ch with consumed := ch.consumed + m }) := by
  have hpos : 0 < ch.unread.length := List.length_pos_iff.mpr hunread
  have htake : ch.unread.take (min n ch.unread.length) = ch.unread.take n := by
    simp [List.take_eq_take_iff]
  unfold deliver
  split
  · rename_i hnil
    have hlen := congrArg List.length hnil
    rw [List.length_take, List.length_nil] at hlen
    omega
  · rename_i b bs hcons
    refine ⟨min n ch.unread.length, b, bs, by omega, by omega, by omega, by rw [htake, hcons], ?_⟩
    rw [← hcons, List.length_take]

/-- A delivery is of the first unread bytes. -/
theorem deliver_data {ch ch' : Channel service} {n : Nat} {bs : List UInt8}
    (h : ch.deliver n = (.data bs, ch')) :
    bs = ch.unread.take bs.length ∧ ch' = { ch with consumed := ch.consumed + bs.length } := by
  unfold deliver at h
  split at h
  · simp at h
  · rename_i b bs' htake
    simp only [Prod.mk.injEq, RecvOutcome.data.injEq] at h
    obtain ⟨rfl, rfl⟩ := h
    refine ⟨?_, rfl⟩
    rw [← htake, List.length_take, List.take_eq_take_iff]
    omega

theorem length_recv (ch : Channel service) (sz : Nat) (bs : List UInt8) (ch' : Channel service)
    (h : ch.recv sz = (.data bs, ch')) : bs.length ≤ sz := by
  unfold recv at h
  split at h
  · simp only [Prod.mk.injEq, RecvOutcome.data.injEq] at h
    simp [← h.1]
  · split at h
    · exact length_deliver h
    · have hlen := length_deliver h
      omega
    · simp at h
    · simp only [Prod.mk.injEq, RecvOutcome.data.injEq] at h
      simp [← h.1]
    · simp at h

theorem send_pos (ch : Channel service) (bs : List UInt8) (n : Nat) (ch' : Channel service)
    (h : ch.send bs = (some n, ch')) (hne : bs ≠ []) : 0 < n := by
  have hpos : 0 < bs.length := List.length_pos_iff.mpr hne
  unfold send at h
  split at h <;> simp only [Prod.mk.injEq, Option.some.injEq, reduceCtorEq,
    false_and] at h
  · omega
  · omega

instance : Socket (Channel service) where
  recv := recv
  send := send
  length_recv := length_recv
  send_pos := send_pos

/-- A `recv` that does not time out, with bytes to read: it delivers some, or
the connection is lost. -/
theorem recv_cases (ch : Channel service) (n : Nat) (hprompt : .timeout ∉ ch.recvs)
    (hunread : ch.unread ≠ []) :
    (∃ m b bs recvs, 0 < m ∧ m ≤ n + 1 ∧ m ≤ ch.unread.length ∧ .timeout ∉ recvs ∧
      ch.unread.take m = b :: bs ∧
      Socket.recv ch (n + 1) =
        (.data (b :: bs), { ch with consumed := ch.consumed + m, recvs := recvs })) ∨
    (∃ ch', Socket.recv ch (n + 1) = (.data [], ch')) ∨
    (∃ ch', Socket.recv ch (n + 1) = (.error, ch')) := by
  have hrecv : ∀ sz, Socket.recv ch sz = ch.recv sz := fun _ => rfl
  rw [hrecv]
  unfold recv
  rw [if_neg (Nat.succ_ne_zero n)]
  match hrecvs : ch.recvs with
  | [] =>
    obtain ⟨m, b, bs, hm, hle, hlen, htake, hdel⟩ := ch.deliver_eq (Nat.succ_pos n) hunread
    exact .inl ⟨m, b, bs, [], hm, hle, hlen, by simp, htake, by rw [hdel, hrecvs]⟩
  | .data k :: rest =>
    obtain ⟨m, b, bs, hm, hle, hlen, htake, hdel⟩ :=
      deliver_eq { ch with recvs := rest } (show 0 < min (k + 1) (n + 1) by omega) hunread
    refine .inl ⟨m, b, bs, rest, hm, by omega, hlen, ?_, htake, hdel⟩
    rw [hrecvs] at hprompt
    exact fun h => hprompt (List.mem_cons_of_mem _ h)
  | .timeout :: rest =>
    rw [hrecvs] at hprompt
    exact absurd List.mem_cons_self hprompt
  | .closed :: rest => exact .inr (.inl ⟨_, rfl⟩)
  | .error :: rest => exact .inr (.inr ⟨_, rfl⟩)

/-- A `recv` that gets bytes gets the first unread ones. -/
theorem recv_data {ch ch' : Channel service} {sz : Nat} {bs : List UInt8}
    (h : Socket.recv ch sz = (.data bs, ch')) (hne : bs ≠ []) :
    bs = ch.unread.take bs.length ∧
      ∃ recvs, ch' = { ch with consumed := ch.consumed + bs.length, recvs := recvs } := by
  change ch.recv sz = _ at h
  unfold recv at h
  split at h
  · exact absurd (RecvOutcome.data.inj (Prod.mk.inj h).1).symm hne
  · split at h
    · obtain ⟨hbs, hch⟩ := deliver_data h
      exact ⟨hbs, ch.recvs, hch⟩
    · rename_i n rest hrecvs
      obtain ⟨hbs, hch⟩ := deliver_data h
      exact ⟨hbs, rest, hch⟩
    · simp at h
    · exact absurd (RecvOutcome.data.inj (Prod.mk.inj h).1).symm hne
    · simp at h

/-- A `recv` for no bytes answers `0`. -/
theorem recv_zero (ch : Channel service) : Socket.recv ch 0 = (.data [], ch) := rfl

end Channel

/-! ## The client -/

/-- What the environment does during one attempt. -/
structure Attempt where
  connects : Bool
  setTimeout : Bool
  shutdownBefore : Bool
  sends : List (Option Nat)
  headerRecvs : List RecvChoice
  payloadRecv : RecvChoice
  shutdownAfter : Bool

/-- A request of the worker's queue, with the environment of its attempts. -/
structure QueryRequest where
  query : Frame
  attempts : Nat → Attempt

/-- The bytes of a frame are a full packet. -/
def Retries.QueryData.ofFrame (frame : Frame) : QueryData where
  bytes := frame.bytes
  bytes_ne := by
    rw [← List.length_pos_iff, frame.length_bytes]
    omega
  length_lt := by
    have hsize := frame.header.sizeField_lt
    rw [frame.length_bytes, ← frame.sizeField_eq]
    omega

/-- The environment of an attempt on a channel.  A new connection has the number
`conn`. -/
def Retries.Conditions.ofAttempt {service : Service} (conn : Nat) (env : Attempt) :
    Conditions (Channel service) where
  connected :=
    if env.connects then some { conn, sent := [], consumed := 0, sends := [], recvs := [] }
    else none
  setTimeout := env.setTimeout
  beforeCheck := { sock := id, shutdown := env.shutdownBefore }
  beforeSend := { sock := fun ch => { ch with sends := env.sends }, shutdown := false }
  beforeHeader := { sock := fun ch => { ch with recvs := env.headerRecvs }, shutdown := false }
  beforePayload := { sock := fun ch => { ch with recvs := [env.payloadRecv] }, shutdown := false }
  afterReply := { sock := id, shutdown := env.shutdownAfter }

/-- `InterfaceClient`: its session, and the number of the next connection. -/
structure InterfaceClient (service : Service) extends Client (Channel service) where
  nextConn : Nat

namespace InterfaceClient

variable {service : Service}

/-- A client that has not connected yet. -/
def init (service : Service) : InterfaceClient service where
  session := none
  sound := Retries.sound_none
  nextConn := 0

/-- `InterfaceClient::sendAndReceive`. -/
def sendAndReceive (core : Core) (client : InterfaceClient service) (query : List UInt8)
    (env : Attempt) (result : InterfaceQueryResult) :
    Int × InterfaceQueryResult × InterfaceClient service :=
  let out := Retries.sendAndReceive core client.session query (.ofAttempt client.nextConn env)
    result
  (out.1, out.2.1,
    { session := out.2.2
      sound := Retries.sound_sendAndReceive core query (.ofAttempt client.nextConn env) result
        client.sound
      nextConn := client.nextConn })

/-- The environment of the attempts of a request.  Each of them has a number for a
connection that it may make. -/
def conditions (client : InterfaceClient service) (request : QueryRequest) (attempt : Nat) :
    Conditions (Channel service) :=
  .ofAttempt (client.nextConn + attempt) (request.attempts attempt)

/-- `InterfaceClient::processQueryRequest`. -/
def processQueryRequest (core : Core) (client : InterfaceClient service)
    (request : QueryRequest) : Bool × InterfaceQueryResult × InterfaceClient service :=
  let query := QueryData.ofFrame request.query
  let out := Retries.processQueryRequest core client.toClient query (client.conditions request)
  (out.returned, out.result,
    { toClient := client.toClient.after core query (client.conditions request)
      nextConn := client.nextConn + (maxSendRetries + 1) })

/-- The worker processes a request. -/
def step (core : Core) (client : InterfaceClient service) (request : QueryRequest) :
    Option (InterfaceClient service) :=
  some (client.processQueryRequest core request).2.2

/-- The session with the outcomes of its next `send` calls. -/
def withSends (session : Session (Channel service)) (sends : List (Option Nat)) :
    Session (Channel service) :=
  { session with sock := { session.sock with sends } }

/-- The session with the outcomes of its next `recv` calls. -/
def withRecvs (session : Session (Channel service)) (recvs : List RecvChoice) :
    Session (Channel service) :=
  { session with sock := { session.sock with recvs } }

section conditions

variable (conn : Nat) (env : Attempt) (session : Session (Channel service))

/-! What happens between the operations of an attempt. -/

@[simp] theorem beforeCheck_apply : (Conditions.ofAttempt conn env).beforeCheck.apply session =
    if env.shutdownBefore then session.forceShutdown else session := rfl

@[simp] theorem beforeSend_apply : (Conditions.ofAttempt conn env).beforeSend.apply session =
    withSends session env.sends := rfl

@[simp] theorem beforeHeader_apply : (Conditions.ofAttempt conn env).beforeHeader.apply session =
    withRecvs session env.headerRecvs := rfl

@[simp] theorem beforePayload_apply :
    (Conditions.ofAttempt conn env).beforePayload.apply session =
      withRecvs session [env.payloadRecv] := rfl

@[simp] theorem afterReply_apply : (Conditions.ofAttempt conn env).afterReply.apply session =
    if env.shutdownAfter then session.forceShutdown else session := rfl

end conditions

/-! ## The socket operations -/

/-- The session when `n` more reply bytes have been read. -/
def afterRead (session : Session (Channel service)) (n : Nat) (recvs : List RecvChoice) :
    Session (Channel service) :=
  { session with
    sock := { session.sock with consumed := session.sock.consumed + n, recvs } }

/-- The session when `bs` has been sent. -/
def afterSend (session : Session (Channel service)) (bs : List UInt8)
    (sends : List (Option Nat)) : Session (Channel service) :=
  { session with sock := { session.sock with sent := session.sock.sent ++ bs, sends } }

theorem sendLoop_channel {fuel : Nat} {session session' : Session (Channel service)}
    {bs : List UInt8} (h : session.sendLoop fuel bs = (true, session')) :
    ∃ sends, session' = afterSend session bs sends := by
  induction fuel generalizing session bs with
  | zero =>
    cases bs with
    | nil =>
      rw [Session.sendLoop, Prod.mk.injEq] at h
      exact ⟨session.sock.sends, by simp [afterSend, ← h.2]⟩
    | cons b bs => simp [Session.sendLoop] at h
  | succ fuel ih =>
    cases bs with
    | nil =>
      rw [Session.sendLoop, Prod.mk.injEq] at h
      exact ⟨session.sock.sends, by simp [afterSend, ← h.2]⟩
    | cons b bs =>
      rw [Session.sendLoop] at h
      split at h
      · simp at h
      · rename_i n sock hsend
        obtain ⟨sends, rfl⟩ := ih h
        -- one call takes the first `n` bytes, the rest of the loop the others
        have hsock : ∃ sends', sock = { session.sock with
            sent := session.sock.sent ++ (b :: bs).take n, sends := sends' } := by
          change Channel.send session.sock (b :: bs) = _ at hsend
          unfold Channel.send at hsend
          split at hsend
          · simp only [Prod.mk.injEq, Option.some.injEq] at hsend
            exact ⟨session.sock.sends, by rw [← hsend.1, ← hsend.2, List.take_length]⟩
          · simp at hsend
          · rename_i k rest hsends
            simp only [Prod.mk.injEq, Option.some.injEq] at hsend
            refine ⟨rest, ?_⟩
            rw [← hsend.1, ← hsend.2]
            simp [List.take_eq_take_iff]
        obtain ⟨sends', rfl⟩ := hsock
        exact ⟨sends, by simp [afterSend]⟩

/-- A successful `sendData` puts the whole query on the connection. -/
theorem sendData_channel {session session' : Session (Channel service)} {bs : List UInt8}
    (h : session.sendData bs = (true, session')) :
    ∃ sends, session' = afterSend session bs sends := by
  unfold Session.sendData at h
  split at h
  · simp at h
  · exact sendLoop_channel h

/-- One `receive` of at least one byte when there are bytes to read and the
next `recv` does not time out: some of them arrive, or the session is lost. -/
theorem receive_channel (session : Session (Channel service)) (n : Nat)
    (hactive : session.active = true) (hopen : session.isOpen = true)
    (hprompt : .timeout ∉ session.sock.recvs) (hunread : session.sock.unread ≠ []) :
    (∃ m recvs, 0 < m ∧ m ≤ n + 1 ∧ m ≤ session.sock.unread.length ∧
      .timeout ∉ recvs ∧
      session.receive (n + 1) =
        (.got (session.sock.unread.take m), afterRead session m recvs)) ∨
    (∃ session', session.receive (n + 1) = (.failed, session') ∧ session'.active = false) := by
  rcases session.sock.recv_cases n hprompt hunread with
    ⟨m, b, bs, recvs, hm, hle, hlen, hrest, htake, hrecv⟩ | ⟨ch, hrecv⟩ | ⟨ch, hrecv⟩
  · refine .inl ⟨m, recvs, hm, hle, hlen, hrest, ?_⟩
    rw [Session.receive_data hactive hopen hrecv, htake]
    rfl
  · exact .inr ⟨_, Session.receive_closed hactive hopen hrecv, rfl⟩
  · exact .inr ⟨_, Session.receive_error hactive hopen hrecv, rfl⟩

theorem unread_afterRead (session : Session (Channel service)) (n : Nat)
    (recvs : List RecvChoice) :
    (afterRead session n recvs).sock.unread = session.sock.unread.drop n := by
  simp [afterRead, Channel.unread, Channel.queries, List.drop_drop]

theorem afterRead_afterRead (session : Session (Channel service)) (m n : Nat)
    (recvs recvs' : List RecvChoice) :
    afterRead (afterRead session m recvs) n recvs' = afterRead session (m + n) recvs' := by
  simp only [afterRead, Nat.add_assoc]

private theorem receiveLoop_channel (fuel : Nat) (session : Session (Channel service))
    (sz : Nat) (acc : List UInt8) (hactive : session.active = true)
    (hopen : session.isOpen = true) (hprompt : .timeout ∉ session.sock.recvs)
    (hacc : acc.length ≤ sz) (hunread : sz - acc.length ≤ session.sock.unread.length)
    (hfuel : sz ≤ acc.length + fuel) :
    (∃ recvs, session.receiveLoop fuel sz acc =
      (.got (acc ++ session.sock.unread.take (sz - acc.length)),
        afterRead session (sz - acc.length) recvs)) ∨
    (∃ received session', session.receiveLoop fuel sz acc = (received, session') ∧
      session'.active = false ∧ received.bytes.length < sz) := by
  induction fuel generalizing session acc with
  | zero =>
    refine .inl ⟨session.sock.recvs, ?_⟩
    rw [Session.receiveLoop, show sz - acc.length = 0 by omega, List.take_zero, List.append_nil]
    rfl
  | succ fuel ih =>
    by_cases hlt : acc.length < sz
    · obtain ⟨n, hn⟩ : ∃ n, sz - acc.length = n + 1 := ⟨sz - acc.length - 1, by omega⟩
      have hne : session.sock.unread ≠ [] := by
        rw [← List.length_pos_iff]
        omega
      rcases receive_channel session n hactive hopen hprompt hne with
        ⟨m, recvs, hm, hle, hlen, hrest, hrecv⟩ | ⟨session', hrecv, hlost⟩
      · have hgot : (session.sock.unread.take m).length = m := by
          rw [List.length_take]
          omega
        have hleft : sz - (acc ++ session.sock.unread.take m).length = n + 1 - m := by
          rw [List.length_append, hgot]
          omega
        have hsome : session.sock.unread.take m ≠ [] := by
          rw [← List.length_pos_iff]
          omega
        -- the loop goes on behind the `m` bytes
        rw [Session.receiveLoop_got hlt hsome (by rw [hn]; exact hrecv), hn]
        have hih := ih (afterRead session m recvs) (acc ++ session.sock.unread.take m) hactive
          hopen hrest (by rw [List.length_append, hgot]; omega)
          (by rw [unread_afterRead, List.length_drop, hleft]; omega)
          (by rw [List.length_append, hgot]; omega)
        rw [hleft, unread_afterRead, List.append_assoc, ← List.take_add,
          show m + (n + 1 - m) = n + 1 by omega] at hih
        rcases hih with ⟨recvs', hih⟩ | hih
        · refine .inl ⟨recvs', ?_⟩
          rw [hih, afterRead_afterRead, show m + (n + 1 - m) = n + 1 by omega]
        · exact .inr hih
      · refine .inr ⟨_, session', Session.receiveLoop_failed hlt (by rw [hn]; exact hrecv),
          hlost, ?_⟩
        split
        · simp only [Received.bytes, List.length_nil]
          omega
        · exact hlt
    · refine .inl ⟨session.sock.recvs, ?_⟩
      rw [Session.receiveLoop, if_neg hlt, show sz - acc.length = 0 by omega, List.take_zero,
        List.append_nil]
      rfl

/-- A header read that does not time out gets the first unread bytes, or the
session is lost. -/
theorem receiveExact_channel (session : Session (Channel service)) (sz : Nat)
    (hactive : session.active = true) (hopen : session.isOpen = true)
    (hprompt : .timeout ∉ session.sock.recvs) (hunread : sz ≤ session.sock.unread.length) :
    (∃ recvs, session.receiveExact sz =
      (.got (session.sock.unread.take sz), afterRead session sz recvs)) ∨
    (∃ received session', session.receiveExact sz = (received, session') ∧
      session'.active = false ∧ received.bytes.length < sz) := by
  have h := receiveLoop_channel sz session sz [] hactive hopen hprompt (by simp)
    (by simpa using hunread) (by simp)
  simpa [Session.receiveExact] using h

/-- A `receive` that gets bytes gets the first unread ones. -/
theorem receive_got {session session' : Session (Channel service)} {bs : List UInt8} {sz : Nat}
    (h : session.receive sz = (.got bs, session')) (hne : bs ≠ []) :
    bs = session.sock.unread.take bs.length ∧
      ∃ recvs, session' = afterRead session bs.length recvs := by
  unfold Session.receive at h
  split at h
  · simp at h
  · split at h
    · simp at h
    · rename_i bs' sock hrecv
      simp only [Prod.mk.injEq, Received.got.injEq] at h
      obtain ⟨rfl, rfl⟩ := h
      obtain ⟨hbs, recvs, hsock⟩ := Channel.recv_data hrecv hne
      exact ⟨hbs, recvs, by rw [hsock]; rfl⟩
    · exact absurd (Received.got.inj (Prod.mk.inj h).1).symm hne
    · simp at h

/-- A single `recv` that gets all the bytes it asks for gets the first unread
ones.  A request for no bytes is answered as a close. -/
theorem receive_full {session session' : Session (Channel service)} {received : Received}
    {sz : Nat} (hactive : session.active = true) (hopen : session.isOpen = true)
    (h : session.receive sz = (received, session')) (hret : received.ret = sz) :
    received.bytes = session.sock.unread.take sz ∧
      ∃ recvs, session' = afterRead session sz recvs := by
  have hpos : 0 < sz := by
    by_contra hzero
    obtain rfl : sz = 0 := by omega
    rw [Session.receive_closed hactive hopen (Channel.recv_zero _), Prod.mk.injEq] at h
    rw [← h.1] at hret
    simp [Received.ret] at hret
  cases received with
  | failed => simp [Received.ret] at hret
  | got bs =>
    have hlen : bs.length = sz := by simpa [Received.ret] using hret
    have hne : bs ≠ [] := by
      rw [← List.length_pos_iff]
      omega
    rw [← hlen]
    exact receive_got h hne

/-! ## One request -/

theorem replyStream_append (service : Service) (conn : Nat) (before qs : List Frame) (q : Frame) :
    Channel.replyStream service conn before (qs ++ [q]) =
      Channel.replyStream service conn before qs ++
        (service conn (before ++ qs ++ [q])).bytes := by
  induction qs generalizing before with
  | nil => simp [Channel.replyStream]
  | cons r qs ih =>
    simp only [List.cons_append, Channel.replyStream, ih, List.append_assoc, List.nil_append]

/-- A session with no unanswered query and no reply that was read in part: the
queries on it are complete, and as many bytes were read as their replies
have. -/
def CleanSession (session : Session (Channel service)) : Prop :=
  session.isOpen = true ∧ ∃ qs, session.sock.sent = stream qs ∧
    session.sock.consumed =
      (Channel.replyStream service session.sock.conn [] qs).length

/-- An active session is clean. -/
def CleanIfActive (session : Option (Session (Channel service))) : Prop :=
  ∀ s, session = some s → s.active = true → CleanSession s

/-- Between two requests an active session is clean. -/
def Clean (client : InterfaceClient service) : Prop := CleanIfActive client.session

/-- The result holds the reply: its payload, behind eight zeros where the header
would be. -/
def Delivers (result : InterfaceQueryResult) (reply : Frame) : Prop :=
  result.replyData = List.replicate 8 0 ++ reply.payload

/-- The query is the last one on the connection, and the result holds the service's
reply to it. -/
def AnsweredOn (session : Session (Channel service)) (query : Frame)
    (result : InterfaceQueryResult) : Prop :=
  ∃ qs, session.sock.queries = qs ++ [query] ∧
    Delivers result (service session.sock.conn (qs ++ [query]))

/-- The query is the last one on the client's connection, and the result holds
the service's reply to it. -/
def OwnReply (client : InterfaceClient service) (query : Frame)
    (result : InterfaceQueryResult) : Prop :=
  ∃ session, client.session = some session ∧ AnsweredOn session query result

theorem clean_forceShutdown {session : Session (Channel service)}
    (h : session.active = true → CleanSession session) (b : Bool) :
    (if b then session.forceShutdown else session).active = true →
      CleanSession (if b then session.forceShutdown else session) := by
  intro hactive
  cases b with
  | false => exact h hactive
  | true =>
    rw [if_pos rfl] at hactive ⊢
    have hsame := Session.forceShutdown_active hactive
    rw [hsame] at hactive ⊢
    exact h hactive

theorem clean_of_inactive {session : Session (Channel service)} (h : session.active = false) :
    session.active = true → CleanSession session := by
  intro hactive
  rw [h] at hactive
  simp at hactive

@[simp] theorem sock_shutdownAfter (b : Bool) (session : Session (Channel service)) :
    (if b then session.forceShutdown else session).sock = session.sock := by
  obtain ⟨isOpen, active, sock⟩ := session
  cases b <;> cases isOpen <;> cases active <;> rfl

/-- What an attempt with an empty result has to do: leave a clean session, deliver the
query's own reply when it answers `1`, and leave the result empty when it is retried. -/
def AttemptOk (query : Frame) (out : Int × InterfaceQueryResult × Session (Channel service)) :
    Prop :=
  (out.2.2.active = true → CleanSession out.2.2) ∧
    (out.1 = 1 → AnsweredOn out.2.2 query out.2.1) ∧
    (out.1 ≠ 1 → 0 ≤ out.1 → out.2.1 = emptyResult)

section attempt

variable (core : Core) (conn : Nat) {session : Session (Channel service)} {query : Frame}

/-- The reply behind its header: it is delivered and the session is clean, or
the session is closed. -/
theorem receivePayload_spec (env : Attempt) {qs : List Frame} (hactive : session.active = true)
    (hopen : session.isOpen = true) (hsent : session.sock.sent = stream (qs ++ [query]))
    (hconsumed : session.sock.consumed =
      (Channel.replyStream service session.sock.conn [] qs).length + 8) :
    AttemptOk query
      (Retries.receivePayload core session
        (service session.sock.conn (qs ++ [query])).header (.ofAttempt conn env) emptyResult) := by
  have hqueries : session.sock.queries = qs ++ [query] := by
    unfold Channel.queries
    rw [hsent]
    exact framesOf_stream _
  have hstream := replyStream_append service session.sock.conn [] qs query
  have hsize := (service session.sock.conn (qs ++ [query])).size_eq core
  rw [List.nil_append] at hstream
  generalize hreply : service session.sock.conn (qs ++ [query]) = reply at hstream hsize ⊢
  have hunread : session.sock.unread = reply.payload := by
    unfold Channel.unread
    rw [hqueries, hconsumed, hstream, ← List.drop_drop, List.drop_left, Frame.drop_bytes]
  have hstill := Session.isOpen_receive (withRecvs session [env.payloadRecv])
    reply.payload.length
  cases hrecv : (withRecvs session [env.payloadRecv]).receive reply.payload.length with
  | mk received session' =>
    rw [hrecv] at hstill
    rw [@Retries.receivePayload_eq _ _ core session session' reply.header (.ofAttempt conn env)
      emptyResult _ received hsize hrecv]
    split
    · exact ⟨clean_of_inactive (Session.active_close (hstill.trans hopen)), by simp, by simp⟩
    · rename_i hret
      obtain ⟨hbytes, recvs, rfl⟩ := receive_full
        (show (withRecvs session [env.payloadRecv]).active = true from hactive) hopen hrecv
        (by simpa using hret)
      rw [show (withRecvs session [env.payloadRecv]).sock.unread = reply.payload from hunread,
        List.take_length] at hbytes
      rw [hbytes, afterReply_apply]
      have hcs : CleanSession
          (afterRead (withRecvs session [env.payloadRecv]) reply.payload.length recvs) := by
        refine ⟨hopen, qs ++ [query], hsent, ?_⟩
        show session.sock.consumed + reply.payload.length =
          (Channel.replyStream service session.sock.conn [] (qs ++ [query])).length
        rw [hconsumed, hstream, List.length_append, reply.length_bytes]
        omega
      refine ⟨clean_forceShutdown (fun _ => hcs) _, fun _ => ⟨qs, ?_, ?_⟩, by simp⟩
      · rw [sock_shutdownAfter]
        exact hqueries
      · rw [sock_shutdownAfter]
        show Delivers _ (service session.sock.conn (qs ++ [query]))
        rw [hreply]
        exact Retries.overwrite_emptyResult reply.payload

/-- The reply to a query that was sent on a clean session. -/
theorem receiveReply_spec {env : Attempt} {qs : List Frame} (hactive : session.active = true)
    (hopen : session.isOpen = true) (hsent : session.sock.sent = stream (qs ++ [query]))
    (hconsumed : session.sock.consumed =
      (Channel.replyStream service session.sock.conn [] qs).length)
    (hprompt : .timeout ∉ env.headerRecvs) :
    AttemptOk query (Retries.receiveReply core session (.ofAttempt conn env) emptyResult) := by
  have hunread : (withRecvs session env.headerRecvs).sock.unread =
      (service session.sock.conn (qs ++ [query])).bytes := by
    unfold Channel.unread Channel.queries
    show (Channel.replyStream service session.sock.conn []
      (framesOf (2 ^ 24) (session.sock.sent.map some))).drop session.sock.consumed = _
    rw [hsent, framesOf_stream, hconsumed, replyStream_append, List.drop_left, List.nil_append]
  unfold Retries.receiveReply
  rw [beforeHeader_apply]
  rcases receiveExact_channel (withRecvs session env.headerRecvs) 8 hactive hopen hprompt
      (by rw [hunread, Frame.length_bytes]; omega) with
    ⟨recvs, hread⟩ | ⟨received, session', hread, hlost, hshort⟩
  · rw [RequestResponseHeader.sizeOf, hread, hunread, Frame.take_bytes]
    simp only [Received.bytes, RequestResponseHeader.ofBytes?_eq_some
      (service session.sock.conn (qs ++ [query])).header.length_bytes]
    exact receivePayload_spec core conn env
      (show (afterRead (withRecvs session env.headerRecvs) 8 recvs).active = true from hactive)
      hopen hsent (congrArg (· + 8) hconsumed)
  · rw [RequestResponseHeader.sizeOf, hread]
    simp only [RequestResponseHeader.ofBytes?_eq_none (Nat.ne_of_lt hshort)]
    exact ⟨clean_of_inactive hlost, by simp, by simp⟩

/-- One attempt on a clean session whose header read does not time out. -/
theorem exchange_spec (query : Frame) {env : Attempt}
    (hclean : session.active = true → CleanSession session)
    (hprompt : .timeout ∉ env.headerRecvs) :
    AttemptOk query
      (Retries.exchange core session query.bytes (.ofAttempt conn env) emptyResult) := by
  unfold Retries.exchange
  rw [beforeCheck_apply]
  have hclean₁ := clean_forceShutdown hclean env.shutdownBefore
  generalize (if env.shutdownBefore then session.forceShutdown else session) = session₁ at hclean₁
  by_cases hactive : session₁.active = true
  · obtain ⟨hopen, qs, hsent, hconsumed⟩ := hclean₁ hactive
    dsimp only
    rw [if_neg (by simp [Session.isActive, hactive]), beforeSend_apply]
    have hstill := (withSends session₁ env.sends).isOpen_sendData query.bytes
    cases hsend : (withSends session₁ env.sends).sendData query.bytes with
    | mk ok session₂ =>
    rw [hsend] at hstill
    cases ok with
    | false =>
      exact ⟨clean_of_inactive (Session.active_close (hstill.trans hopen)), by simp,
        fun _ _ => rfl⟩
    | true =>
      obtain ⟨sends, rfl⟩ := sendData_channel hsend
      have hsent' : session₁.sock.sent ++ query.bytes = stream (qs ++ [query]) := by
        rw [hsent]
        simp [stream]
      exact receiveReply_spec core conn hactive hopen hsent' hconsumed hprompt
  · dsimp only
    rw [if_pos (by simpa [Session.isActive] using hactive)]
    exact ⟨clean_of_inactive (by simpa using hactive), by simp, fun _ _ => rfl⟩

end attempt

theorem clean_connect {session : Option (Session (Channel service))}
    (hclean : CleanIfActive session) (conn : Nat) (env : Attempt) :
    CleanIfActive (Retries.connect session (.ofAttempt conn env)).2 := by
  rcases Retries.connect_cases session (.ofAttempt conn env) with hc | ⟨s, rfl, -, hc⟩ |
    ⟨sock, hsock, hc⟩
  · rw [hc]
    intro s hs
    simp at hs
  · rw [hc]
    exact hclean
  · rw [hc]
    intro s hs _
    obtain rfl := Option.some.inj hs
    unfold Retries.Conditions.ofAttempt at hsock
    simp only [Option.ite_none_right_eq_some, Option.some.injEq] at hsock
    rw [← hsock.2]
    exact ⟨rfl, [], rfl, rfl⟩

/-- The environment lets no `recv` for a reply header time out. -/
def PromptHeaders (request : QueryRequest) : Prop :=
  ∀ attempt, .timeout ∉ (request.attempts attempt).headerRecvs

/-- The attempts of a request whose headers do not time out. -/
theorem attemptLoop_spec (core : Core) (query : Frame) (left : Nat)
    {envs : Nat → Conditions (Channel service)} {session : Option (Session (Channel service))}
    (hprompt : ∀ k, ∃ conn env, envs k = .ofAttempt conn env ∧ .timeout ∉ env.headerRecvs)
    (hclean : CleanIfActive session) :
    let out := Retries.attemptLoop core query.bytes left envs session emptyResult
    CleanIfActive out.session ∧
      (out.returned = true → ∃ s, out.session = some s ∧ AnsweredOn s query out.result) := by
  induction left generalizing envs session with
  | zero =>
    refine ⟨hclean, fun h => ?_⟩
    simp [Retries.attemptLoop, emptyResult] at h
  | succ left ih =>
    obtain ⟨conn, env, henv, hheader⟩ := hprompt 0
    have hconnected := clean_connect hclean conn env
    have hcases := Retries.connect_cases session (envs 0)
    rw [← henv] at hconnected
    -- a session that `connect` gives is clean, and the attempt is made on it
    have hattempt : ∀ s, Retries.connect session (envs 0) = (true, some s) →
        let out := Retries.attemptLoop core query.bytes (left + 1) envs session emptyResult
        CleanIfActive out.session ∧
          (out.returned = true → ∃ s, out.session = some s ∧ AnsweredOn s query out.result) := by
      intro s hc
      rw [hc] at hconnected
      have hspec := exchange_spec core conn query (hconnected s rfl) hheader
      rw [← henv] at hspec
      cases hout : Retries.exchange core s query.bytes (envs 0) emptyResult with
      | mk rc out =>
      obtain ⟨result, s'⟩ := out
      rw [hout] at hspec
      obtain ⟨hclean', hone, hother⟩ := hspec
      have hcleanSome : CleanIfActive (some s') := by
        intro s'' hs''
        rw [← Option.some.inj hs'']
        exact hclean'
      rw [Retries.attemptLoop_connected hc hout]
      by_cases hrc : rc = 1
      · rw [if_pos hrc]
        exact ⟨hcleanSome, fun _ => ⟨s', rfl, hone hrc⟩⟩
      · rw [if_neg hrc]
        by_cases hneg : rc < 0
        · rw [if_pos hneg]
          exact ⟨hcleanSome, by simp⟩
        · have hempty : result = emptyResult := hother hrc (Int.not_lt.mp hneg)
          rw [if_neg hneg, hempty]
          exact ih (fun k => hprompt (k + 1)) hcleanSome
    rcases hcases with hc | ⟨s, -, -, hc⟩ | ⟨sock, -, hc⟩
    · rw [hc] at hconnected
      rw [Retries.attemptLoop_refused hc]
      exact ⟨hconnected, by simp⟩
    · exact hattempt s hc
    · exact hattempt _ hc

/-- One request of a clean client. -/
theorem processQueryRequest_spec (core : Core) {client : InterfaceClient service}
    {request : QueryRequest} (hprompt : PromptHeaders request) (hclean : client.Clean) :
    let out := client.processQueryRequest core request
    out.2.2.Clean ∧ (out.1 = true → out.2.2.OwnReply request.query out.2.1) :=
  attemptLoop_spec core request.query (maxSendRetries + 1)
    (fun k => ⟨client.nextConn + k, request.attempts k, rfl, hprompt k⟩) hclean

/-! ## Runs -/

/-- Reply correlation.  In every run in which no `recv` for a reply header
times out, the client is clean between two requests, and a request that
succeeds delivers the service's reply to that very request. -/
theorem replies_correlate (core : Core) (service : Service) (requests : List QueryRequest)
    (client : InterfaceClient service)
    (hrun : Runs (step core) (fun _ request => PromptHeaders request) (init service) requests
      client) :
    client.Clean ∧ ∀ request : QueryRequest, PromptHeaders request →
      (client.processQueryRequest core request).1 = true →
      (client.processQueryRequest core request).2.2.OwnReply request.query
        (client.processQueryRequest core request).2.1 := by
  have hclean : client.Clean := by
    refine hrun.invariant (I := Clean) ?_ ?_
    · intro client request client' hclean hprompt hstep
      obtain rfl := Option.some.inj hstep
      exact (processQueryRequest_spec core hprompt hclean).1
    · intro session hsession
      simp [init] at hsession
  exact ⟨hclean, fun request hprompt => (processQueryRequest_spec core hprompt hclean).2⟩

/-- A query with one byte of payload. -/
def byteQuery (b : UInt8) : Frame where
  header := ⟨[9, 0, 0, 190, 0, 0, 0, 0], rfl⟩
  payload := [b]
  sizeField_eq := rfl

/-- A service that answers the first payload byte of a query. -/
def echoByte : Service := fun _ qs =>
  { header := ⟨[9, 0, 0, 191, 0, 0, 0, 0], rfl⟩
    payload := [((qs.getLast?.map Frame.payload).getD []).headD 0]
    sizeField_eq := rfl }

/-- An environment in which everything works, with given outcomes for the
header. -/
def attemptWith (headerRecvs : List RecvChoice) : Attempt where
  connects := true
  setTimeout := true
  shutdownBefore := false
  sends := []
  headerRecvs := headerRecvs
  payloadRecv := .data 0
  shutdownAfter := false

/-- A request for one byte in such an environment. -/
def byteRequest (b : UInt8) (headerRecvs : List RecvChoice) : QueryRequest where
  query := byteQuery b
  attempts := fun _ => attemptWith headerRecvs

/-- The client after a first request. -/
def clientAfter (first : QueryRequest) : InterfaceClient echoByte :=
  ((init echoByte).processQueryRequest Core.sample first).2.2

/-- The outcome of a second request. -/
def secondOutcome (first second : QueryRequest) :
    Bool × InterfaceQueryResult × InterfaceClient echoByte :=
  (clientAfter first).processQueryRequest Core.sample second

/-- Two requests in a row, the header of each reply in two pieces. -/
theorem replies_correlate_two_requests :
    let out := secondOutcome (byteRequest 1 [.data 2, .data 4]) (byteRequest 2 [.data 2, .data 4])
    out.1 = true ∧ out.2.2.OwnReply (byteQuery 2) out.2.1 := by
  have hprompt : ∀ b, PromptHeaders (byteRequest b [.data 2, .data 4]) := by
    intro b attempt
    simp [byteRequest, attemptWith]
  have hrun : Runs (step Core.sample) (fun _ request => PromptHeaders request) (init echoByte)
      [byteRequest 1 [.data 2, .data 4]] (clientAfter (byteRequest 1 [.data 2, .data 4])) :=
    .cons (hprompt 1) rfl (.nil _)
  have hout : (secondOutcome (byteRequest 1 [.data 2, .data 4])
      (byteRequest 2 [.data 2, .data 4])).1 = true := by decide
  have hspec := (replies_correlate Core.sample echoByte _ _ hrun).2
    (byteRequest 2 [.data 2, .data 4]) (hprompt 2)
  exact ⟨hout, hspec hout⟩

/-- The header of the first reply comes too late: the request fails, but its
reply stays on the connection and is delivered as the answer to the second
request. -/
theorem late_reply_is_delivered :
    let out := secondOutcome (byteRequest 1 [.timeout]) (byteRequest 2 [])
    out.1 = true ∧ out.2.1.replyData = [0, 0, 0, 0, 0, 0, 0, 0, 1] ∧
      ¬ (clientAfter (byteRequest 1 [.timeout])).Clean ∧
      ¬ out.2.2.OwnReply (byteQuery 2) out.2.1 := by
  have hout : (secondOutcome (byteRequest 1 [.timeout]) (byteRequest 2 [])).1 = true := by
    decide
  have hdata : (secondOutcome (byteRequest 1 [.timeout]) (byteRequest 2 [])).2.1.replyData =
      [0, 0, 0, 0, 0, 0, 0, 0, 1] := by decide
  have hown : ¬ (secondOutcome (byteRequest 1 [.timeout]) (byteRequest 2 [])).2.2.OwnReply
      (byteQuery 2) (secondOutcome (byteRequest 1 [.timeout]) (byteRequest 2 [])).2.1 := by
    intro hown
    obtain ⟨session, -, qs, -, hdelivers⟩ := hown
    rw [Delivers, hdata] at hdelivers
    simp [echoByte, byteQuery] at hdelivers
  refine ⟨hout, hdata, fun hclean => ?_, hown⟩
  -- a clean client would have delivered its own reply
  have hprompt : PromptHeaders (byteRequest 2 []) := by
    intro attempt
    simp [byteRequest, attemptWith]
  have hspec := (processQueryRequest_spec Core.sample hprompt hclean).2
  exact hown (hspec hout)

end InterfaceClient

end OracleMachine.Node
