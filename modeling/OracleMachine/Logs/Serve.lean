import OracleMachine.Lib.Loop
import OracleMachine.Logs.EvmLog
import OracleMachine.Logs.QubicLog
import OracleMachine.Network.Framing

/-!
# The frame loop of the Python services

`Handler.serve` of the two log services is the same code: it reads a header, then
the body that the header announces, answers the body when it is a query for its
interface, and goes on behind it.  Both handlers are one `LogServer`, with the
interface index, the size of a reply and `handle_query` as fields.

The socket is the `Peer` of the C++ sessions, under the calls of Python's `socket`
module: a timeout and a broken connection are exceptions here, and each of them ends
the session.  `serve` therefore sees the bytes in front of the first timeout, which
is `burst`.

* `recvExact_spec` reads these bytes, whatever the chunks are.
* `turn_spec` is one pass of the loop in terms of `nextFrame`.
* `answersFrames` says what is written on a whole connection.
-/

namespace OracleMachine.Logs.Serve

open Lib.Bytes Lib.Loop Lib.Python Network Network.Wire Network.Framing

/-! ## The socket -/

/-- The exceptions of a socket call: `socket.timeout`, or another `OSError`. -/
inductive SocketError where
  | timeout
  | broken
  deriving DecidableEq

/-- `sock.recv(n)`. -/
def recv (sock : Peer) (n : Nat) : Except SocketError (List UInt8) × Peer :=
  match sock.recv n with
  | (.data chunk, sock) => (.ok chunk, sock)
  | (.wouldBlock, sock) => (.error .timeout, sock)
  | (.error, sock) => (.error .broken, sock)

/-- The loop of `recv_exact`, with the bytes received so far. -/
def recvLoop : Nat → Peer → Nat → List UInt8 →
    Except SocketError (Option (List UInt8)) × Peer
  | 0, sock, _, buf => (.ok (some buf), sock)
  | fuel + 1, sock, n, buf =>
    if buf.length < n then
      match recv sock (n - buf.length) with
      | (.error e, sock) => (.error e, sock)
      | (.ok [], sock) => (.ok none, sock)
      | (.ok chunk, sock) => recvLoop fuel sock n (buf ++ chunk)
    else (.ok (some buf), sock)

/-- `recv_exact`.  Every turn receives a byte, so that `n` turns are enough. -/
def recvExact (sock : Peer) (n : Nat) : Except SocketError (Option (List UInt8)) × Peer :=
  recvLoop n sock n []

/-- The loop of `sendall`: `send` until nothing is left. -/
def sendallLoop : Nat → Peer → List UInt8 → Except SocketError Unit × Peer
  | _, sock, [] => (.ok (), sock)
  | 0, sock, _ :: _ => (.error .broken, sock)
  | fuel + 1, sock, b :: bs =>
    match sock.send (b :: bs) with
    | (none, sock) => (.error .broken, sock)
    | (some n, sock) => sendallLoop fuel sock ((b :: bs).drop n)

/-- `sock.sendall(data)`. -/
def sendall (sock : Peer) (data : List UInt8) : Except SocketError Unit × Peer :=
  sendallLoop data.length sock data

/-! ## The handler -/

/-- `OM_QUERY_TYPE`. -/
def omQueryType : UInt8 := 190

/-- `OM_REPLY_TYPE`. -/
def omReplyType : UInt8 := 191

/-- `MAX_FRAME_BYTES`. -/
def maxFrameBytes : Nat := 4096

/-- What the two services differ in: `INTERFACE_INDEX`, `REPLY_SIZE`, and what
`handle_query` returns for the `k`-th query of a session.  An exception is `none`. -/
structure LogServer where
  interfaceIndex : Nat
  replySize : Nat
  handleQuery : Nat → List UInt8 → Option (UInt16 × List UInt8)
  length_handleQuery : ∀ k payload flags reply,
    handleQuery k payload = some (flags, reply) → reply.length = replySize
  replySize_lt : 24 + replySize < 2 ^ 24

namespace LogServer

/-- The packet that a handler sends. -/
def packet (server : LogServer) (queryId : Nat) (flags : UInt16) (replyPayload : List UInt8) :
    List UInt8 :=
  let replySize := 8 + 16 + server.replySize
  leBytes 3 replySize ++ [omReplyType] ++ zeros 4 ++
    (leBytes 8 queryId ++ leBytes 2 flags.toNat ++ zeros 6) ++ replyPayload

/-- `handle_query`, with the backstop for its exceptions. -/
def answer (server : LogServer) (k : Nat) (payload : List UInt8) : UInt16 × List UInt8 :=
  (server.handleQuery k payload).getD (oracleUnavail, zeros server.replySize)

/-- The local state of `serve`: the socket, and the number of queries handled. -/
structure State where
  sock : Peer
  handled : Nat

/-- The part of the loop behind the body of a frame. -/
def process (server : LogServer) (st : State) (msgType : UInt8) (body : List UInt8) :
    Turn State :=
  if msgType ≠ omQueryType ∨ body.length ≠ 16 + querySize then .again st
  else
    let queryId := leVal (slice body 0 8)
    let interfaceIndex := leVal (slice body 8 4)
    if interfaceIndex ≠ server.interfaceIndex then .again st
    else
      let (flags, replyPayload) := server.answer st.handled (body.drop 16)
      match sendall st.sock (server.packet queryId flags replyPayload) with
      | (.ok _, sock) => .again { sock, handled := st.handled + 1 }
      | (.error _, sock) => .leave { sock, handled := st.handled + 1 }

/-- The body of the loop of `serve`. -/
def turn (server : LogServer) (st : State) : Turn State :=
  match recvExact st.sock 8 with
  | (.ok (some header), sock) =>
    -- header[0] | (header[1] << 8) | (header[2] << 16)
    let size := leVal (header.take 3)
    let msgType := header.getD 3 0
    if size < 8 ∨ size > maxFrameBytes then .leave { st with sock }
    else
      match recvExact sock (size - 8) with
      | (.ok (some body), sock) => server.process { st with sock } msgType body
      | (_, sock) => .leave { st with sock }
  | (_, sock) => .leave { st with sock }

/-- `Handler.serve`.  Every pass takes a frame from the stream, so that the length of
the stream is enough fuel. -/
def serve (server : LogServer) (sock : Peer) : Option State :=
  run (fun st => some (server.turn st)) ((Peer.tokens sock.inbound).length + 1)
    { sock, handled := 0 }

/-- The frames that a handler answers. -/
def accepts (server : LogServer) (f : Frame) : Bool :=
  f.header.type = omQueryType ∧ f.payload.length = 16 + querySize ∧
    leVal (slice f.payload 8 4) = server.interfaceIndex

end LogServer

/-! ## Receiving -/

/-- The outcome of a `recv_exact` whose stream reads as `r`: the bytes when the stream
has enough of them, and otherwise `None` or an exception.  Only the arrivals of the
socket change. -/
def Receives (sock : Peer) : Read → Except SocketError (Option (List UInt8)) × Peer → Prop
  | .full bs rest, out =>
    ∃ inb, out = (.ok (some bs), { sock with inbound := inb }) ∧ Peer.tokens inb = rest
  | _, out => ∃ result inb, out = (result, { sock with inbound := inb }) ∧
    ∀ bs, result ≠ .ok (some bs)

private theorem recvLoop_spec (fuel : Nat) (sock : Peer) (n : Nat) (buf : List UInt8)
    (hbuf : buf.length ≤ n) (hfuel : n ≤ buf.length + fuel) :
    Receives sock ((readExact (n - buf.length) (Peer.tokens sock.inbound)).prepend buf)
      (recvLoop fuel sock n buf) := by
  induction fuel generalizing sock buf with
  | zero =>
    rw [recvLoop, show n - buf.length = 0 by omega, readExact, Read.prepend, List.append_nil]
    exact ⟨sock.inbound, rfl, rfl⟩
  | succ fuel ih =>
    rw [recvLoop]
    by_cases hlt : buf.length < n
    · rw [if_pos hlt]
      obtain ⟨m, hm⟩ : ∃ m, n - buf.length = m + 1 := ⟨n - buf.length - 1, by omega⟩
      rw [hm]
      obtain ⟨inbound, sends, written⟩ := sock
      cases inbound with
      | nil => exact ⟨.ok none, [], rfl, by simp⟩
      | cons event rest =>
        cases event with
        | timeout => exact ⟨.error .timeout, rest, rfl, by simp⟩
        | error => exact ⟨.error .broken, rest, rfl, by simp⟩
        | data b bs =>
          -- one chunk arrives; the loop goes on behind it
          have hih := ih ⟨Peer.putBack ((b :: bs).drop (m + 1)) rest, sends, written⟩
            (buf ++ (b :: bs).take (m + 1))
            (by simp only [List.length_append, List.length_take]; omega)
            (by simp only [List.length_append, List.length_take, List.length_cons]; omega)
          rw [List.length_append, ← Nat.sub_sub, hm] at hih
          rw [Peer.tokens, readExact_append, Read.prepend_prepend, ← Peer.tokens_putBack]
          exact hih
    · rw [if_neg hlt, show n - buf.length = 0 by omega, readExact, Read.prepend,
        List.append_nil]
      exact ⟨sock.inbound, rfl, rfl⟩

/-- `recv_exact` reads the stream, whatever the chunks are. -/
theorem recvExact_spec (sock : Peer) (n : Nat) :
    Receives sock (readExact n (Peer.tokens sock.inbound)) (recvExact sock n) := by
  have h := recvLoop_spec n sock n [] (by simp) (by simp)
  simpa [recvExact] using h

/-- `recv_exact` takes the next `n` bytes of the stream, or fails because there are fewer
in front of the next timeout. -/
theorem recvExact_cases (sock : Peer) (n : Nat) :
    (∃ bs inb, recvExact sock n = (.ok (some bs), { sock with inbound := inb }) ∧
      bs.length = n ∧ Peer.tokens sock.inbound = bs.map some ++ Peer.tokens inb) ∨
    (∃ result inb, recvExact sock n = (result, { sock with inbound := inb }) ∧
      (∀ bs, result ≠ .ok (some bs)) ∧ (burst (Peer.tokens sock.inbound)).length < n) := by
  have hspec := recvExact_spec sock n
  cases hread : readExact n (Peer.tokens sock.inbound) with
  | full bs rest =>
    rw [hread] at hspec
    obtain ⟨inb, hrecv, rfl⟩ := hspec
    exact .inl ⟨bs, inb, hrecv, readExact_eq_full hread⟩
  | stalled bs rest =>
    rw [hread] at hspec
    obtain ⟨result, inb, hrecv, hresult⟩ := hspec
    exact .inr ⟨result, inb, hrecv, hresult, length_burst_lt (by simp [hread])⟩
  | ended bs =>
    rw [hread] at hspec
    obtain ⟨result, inb, hrecv, hresult⟩ := hspec
    exact .inr ⟨result, inb, hrecv, hresult, length_burst_lt (by simp [hread])⟩

/-- `sendall` is the loop of `sendData`. -/
theorem sendallLoop_eq (fuel : Nat) (sock : Peer) (data : List UInt8) :
    sendallLoop fuel sock data =
      match Session.sendLoop fuel (Session.ofSocket sock) data with
      | (true, sess) => (.ok (), sess.sock)
      | (false, sess) => (.error .broken, sess.sock) := by
  induction fuel generalizing sock data with
  | zero => cases data <;> rfl
  | succ fuel ih =>
    cases data with
    | nil => rfl
    | cons b bs =>
      rw [sendallLoop, Session.sendLoop]
      cases hsend : sock.send (b :: bs) with
      | mk n sock' =>
        have hsend' : Socket.send (Session.ofSocket sock).sock (b :: bs) = (n, sock') := hsend
        rw [hsend']
        cases n with
        | none => rfl
        | some n => exact ih sock' ((b :: bs).drop n)

/-- `sendall` writes a prefix of its data: all of it, or it raises because a `send`
failed. -/
theorem sendall_cases (sock : Peer) {data : List UInt8} (hdata : data ≠ []) :
    ∃ used sends pre, sock.sends = used ++ sends ∧ pre <+: data ∧
      ((pre = data ∧
          sendall sock data =
            (.ok (), { sock with sends := sends, written := sock.written ++ pre })) ∨
        (none ∈ used ∧
          sendall sock data =
            (.error .broken, { sock with sends := sends, written := sock.written ++ pre }))) := by
  obtain ⟨ok, used, sends, pre, hsend, hsends, hused, hpre, hok⟩ :=
    Session.sendData_peer (Session.ofSocket sock) data rfl rfl hdata
  have hloop : Session.sendLoop data.length (Session.ofSocket sock) data =
      (ok, { (Session.ofSocket sock).withWritten sends pre with active := ok }) := by
    rw [← hsend, Session.sendData, if_neg (by simp [Session.ofSocket, hdata])]
  refine ⟨used, sends, pre, hsends, hpre, ?_⟩
  rw [sendall, sendallLoop_eq, hloop]
  cases ok with
  | true => exact .inl ⟨hok.mp rfl, rfl⟩
  | false =>
    refine .inr ⟨?_, rfl⟩
    by_contra hnot
    exact absurd (hused.mpr hnot) (by decide)

namespace LogServer

variable {server : LogServer}

/-! ## The replies -/

theorem length_answer (server : LogServer) (k : Nat) (payload : List UInt8) :
    (server.answer k payload).2.length = server.replySize := by
  rw [answer]
  cases h : server.handleQuery k payload with
  | none => exact length_zeros _
  | some result => exact server.length_handleQuery k payload result.1 result.2 h

/-- The header of every reply. -/
def replyHeader (server : LogServer) : RequestResponseHeader where
  bytes := leBytes 3 (8 + 16 + server.replySize) ++ [omReplyType] ++ zeros 4
  length_bytes := by simp

theorem sizeField_replyHeader (server : LogServer) :
    server.replyHeader.sizeField = 24 + server.replySize := by
  have hlt : 8 + 16 + server.replySize < 256 ^ 3 := server.replySize_lt
  have htake : server.replyHeader.bytes.take 3 = leBytes 3 (8 + 16 + server.replySize) := by
    show (leBytes 3 (8 + 16 + server.replySize) ++ [omReplyType] ++ zeros 4).take 3 = _
    rw [List.append_assoc, List.take_append_of_le_length (by simp),
      List.take_of_length_le (by simp)]
  rw [RequestResponseHeader.sizeField, htake, leVal_leBytes hlt]

/-- The reply structure of the answer to the `k`-th query of a session. -/
def replyOf (server : LogServer) (k : Nat) (query : Frame) : OracleMachineReply where
  oracleQueryId := (OracleMachineQuery.ofBytes query.payload).oracleQueryId
  oracleMachineErrorFlags := (server.answer k (query.payload.drop 16)).1
  padding0 := 0
  padding1 := 0

/-- The frame that answers the `k`-th query of a session. -/
def replyFrame (server : LogServer) (k : Nat) (query : Frame) : Frame where
  header := server.replyHeader
  payload := (server.replyOf k query).toBytes ++ (server.answer k (query.payload.drop 16)).2
  sizeField_eq := by
    rw [sizeField_replyHeader, List.length_append, OracleMachineReply.length_toBytes,
      length_answer]
    omega

/-- The packet that is sent is that frame. -/
theorem packet_eq (server : LogServer) (k : Nat) (query : Frame) :
    server.packet (leVal (slice query.payload 0 8))
        (server.answer k (query.payload.drop 16)).1
        (server.answer k (query.payload.drop 16)).2 =
      (server.replyFrame k query).bytes := by
  have hid : (UInt64.ofNat (leVal (slice query.payload 0 8))).toNat =
      leVal (slice query.payload 0 8) := by
    have hlt := leVal_lt (slice query.payload 0 8)
    have hle : (slice query.payload 0 8).length ≤ 8 := List.length_take_le _ _
    exact UInt64.toNat_ofNat_of_lt (lt_of_lt_of_le hlt (Nat.pow_le_pow_right (by decide) hle))
  have hzeros : zeros 6 = leBytes 2 0 ++ leBytes 4 0 := rfl
  simp only [packet, Frame.bytes, replyFrame, replyHeader, replyOf, OracleMachineReply.toBytes,
    OracleMachineQuery.ofBytes, hid, hzeros, List.append_assoc]
  rfl

/-- What a reply frame has to say: the id of the query, and what `handle_query` makes of
the last 48 bytes of its body, or `ORACLE_UNAVAIL` with zeros when it raises.  That the
size field is the length of the frame is part of `Frame`. -/
structure ReplyTo (server : LogServer) (k : Nat) (query reply : Frame) : Prop where
  type_eq : reply.header.type = omReplyType
  queryId_eq : (OracleMachineReply.ofBytes reply.payload).oracleQueryId =
    (OracleMachineQuery.ofBytes query.payload).oracleQueryId
  answer_eq : ((OracleMachineReply.ofBytes reply.payload).oracleMachineErrorFlags,
      reply.payload.drop 16) =
    match server.handleQuery k (query.payload.drop 16) with
    | some answer => answer
    | none => (oracleUnavail, zeros server.replySize)

theorem replyTo_replyFrame (server : LogServer) (k : Nat) (query : Frame) :
    server.ReplyTo k query (server.replyFrame k query) where
  type_eq := by
    simp [replyFrame, replyHeader, RequestResponseHeader.type]
  queryId_eq := by
    rw [replyFrame, OracleMachineReply.ofBytes_toBytes_append]
    rfl
  answer_eq := by
    rw [replyFrame, OracleMachineReply.ofBytes_toBytes_append, List.drop_append_of_le_length,
      List.drop_of_length_le, List.nil_append]
    · simp only [replyOf, answer]
      cases server.handleQuery k (query.payload.drop 16) <;> rfl
    · rw [OracleMachineReply.length_toBytes]
    · rw [OracleMachineReply.length_toBytes]

/-- The replies to a list of frames, of which the first query is the `k`-th. -/
def replies (server : LogServer) (k : Nat) (frames : List Frame) : List Frame :=
  (frames.filter server.accepts).mapIdx fun i query => server.replyFrame (k + i) query

theorem replies_skip {k : Nat} {f : Frame} {frames : List Frame}
    (h : server.accepts f = false) :
    server.replies k (f :: frames) = server.replies k frames := by
  rw [replies, List.filter_cons_of_neg (by simp [h]), replies]

theorem replies_accept {k : Nat} {f : Frame} {frames : List Frame}
    (h : server.accepts f = true) :
    server.replies k (f :: frames) = server.replyFrame k f :: server.replies (k + 1) frames := by
  rw [replies, List.filter_cons_of_pos h, List.mapIdx_cons, replies]
  simp [Nat.add_assoc, Nat.add_comm 1]

/-! ## One pass of the loop -/

/-- The frames in the stream of a session. -/
def State.frames (st : State) : List Frame :=
  framesOf maxFrameBytes ((burst (Peer.tokens st.sock.inbound)).map some)

/-- What a session writes from a state to a later one: the replies to the frames of the
stream, or the first bytes of them when a `send` fails. -/
def Serves (server : LogServer) (st st' : State) : Prop :=
  ∃ out, st'.sock.written = st.sock.written ++ out ∧
    out <+: stream (server.replies st.handled st.frames) ∧
    (none ∉ st.sock.sends → out = stream (server.replies st.handled st.frames))

theorem process_skip {st : State} {f : Frame} (h : server.accepts f = false) :
    server.process st f.header.type f.payload = .again st := by
  simp only [accepts, decide_eq_false_iff_not] at h
  rw [process]
  split
  · rfl
  · rename_i hframe
    rw [not_or, not_not, not_not] at hframe
    exact if_pos fun hindex => h ⟨hframe.1, hframe.2, hindex⟩

theorem process_accept {st : State} {f : Frame} (h : server.accepts f = true) :
    server.process st f.header.type f.payload =
      match sendall st.sock (server.replyFrame st.handled f).bytes with
      | (.ok _, sock) => .again { sock, handled := st.handled + 1 }
      | (.error _, sock) => .leave { sock, handled := st.handled + 1 } := by
  simp only [accepts, decide_eq_true_eq] at h
  obtain ⟨htype, hlength, hindex⟩ := h
  rw [process, if_neg (by simp [htype, hlength]), if_neg (not_not_intro hindex), ← packet_eq]

/-- The measure of the loop. -/
abbrev State.left (st : State) : Nat := (Peer.tokens st.sock.inbound).length

/-- A pass that ends the session may do so when the stream has no further frame. -/
theorem leave_of_no_frame {st : State} (inb : List Inbound)
    (h : nextFrame maxFrameBytes ((burst (Peer.tokens st.sock.inbound)).map some) = none) :
    TurnOk (fun _ => True) server.Serves State.left st
      (.leave { st with sock := { st.sock with inbound := inb } }) := by
  refine ⟨[], by simp, List.nil_prefix, fun _ => ?_⟩
  rw [State.frames, framesOf_eq_nil h]
  rfl

/-- A pass that has read the frame `f` goes on behind it, or ends the session because a
`send` failed. -/
theorem process_spec {st : State} {f : Frame} {inb : List Inbound}
    (htokens : Peer.tokens st.sock.inbound = f.bytes.map some ++ Peer.tokens inb)
    (hmax : 8 + f.payload.length ≤ maxFrameBytes) :
    TurnOk (fun _ => True) server.Serves State.left st
      (server.process { st with sock := { st.sock with inbound := inb } }
        f.header.type f.payload) := by
  have hframes : st.frames = f :: framesOf maxFrameBytes ((burst (Peer.tokens inb)).map some) := by
    apply framesOf_eq_cons
    rw [nextFrame_map_some_iff]
    exact ⟨burst (Peer.tokens inb), by rw [htokens, burst_append], rfl, hmax⟩
  have hleft : (Peer.tokens inb).length < st.left := by
    simp only [State.left, htokens, List.length_append, List.length_map, f.length_bytes]
    omega
  by_cases haccept : server.accepts f = true
  · -- the frame is answered
    have hreplies : stream (server.replies st.handled st.frames) =
        (server.replyFrame st.handled f).bytes ++ stream (server.replies (st.handled + 1)
          (framesOf maxFrameBytes ((burst (Peer.tokens inb)).map some))) := by
      rw [hframes, replies_accept haccept]
      rfl
    have hne : (server.replyFrame st.handled f).bytes ≠ [] := by
      apply List.ne_nil_of_length_pos
      rw [Frame.length_bytes]
      omega
    obtain ⟨used, sends, pre, hsends, hpre, hcases⟩ :=
      sendall_cases { st.sock with inbound := inb } hne
    have hused : none ∉ st.sock.sends → none ∉ used ∧ none ∉ sends := by
      intro hnone
      have hsends' : st.sock.sends = used ++ sends := hsends
      rw [hsends', List.mem_append, not_or] at hnone
      exact hnone
    rw [process_accept haccept]
    rcases hcases with ⟨rfl, hsend⟩ | ⟨hfail, hsend⟩
    · simp only [hsend]
      refine ⟨trivial, hleft, fun t ht => ?_⟩
      obtain ⟨out, hwritten, hout, hall⟩ := ht
      refine ⟨(server.replyFrame st.handled f).bytes ++ out, ?_, ?_, fun hnone => ?_⟩
      · rw [hwritten, List.append_assoc]
      · rw [hreplies]
        exact (List.prefix_append_right_inj _).mpr hout
      · rw [hreplies, hall (hused hnone).2]
        rfl
    · simp only [hsend]
      refine ⟨pre, rfl, ?_, fun hnone => absurd hfail (hused hnone).1⟩
      rw [hreplies]
      exact List.IsPrefix.trans hpre (List.prefix_append _ _)
  · rw [Bool.not_eq_true] at haccept
    rw [process_skip haccept]
    refine ⟨trivial, hleft, fun t ht => ?_⟩
    obtain ⟨out, hwritten, hout, hall⟩ := ht
    refine ⟨out, hwritten, ?_⟩
    rw [hframes, replies_skip haccept]
    exact ⟨hout, hall⟩

/-- A pass takes the next frame from the stream, or finds that there is none. -/
theorem turn_spec (server : LogServer) (st : State) :
    TurnOk (fun _ => True) server.Serves State.left st (server.turn st) := by
  rw [turn]
  rcases recvExact_cases st.sock 8 with ⟨hdr, inb, hrecv, hlen, htokens⟩ |
    ⟨result, inb, hrecv, hresult, hshort⟩
  · have hburst : burst (Peer.tokens st.sock.inbound) = hdr ++ burst (Peer.tokens inb) := by
      rw [htokens, burst_append]
    simp only [hrecv]
    by_cases hsize : leVal (hdr.take 3) < 8 ∨ leVal (hdr.take 3) > maxFrameBytes
    · -- corrupt framing: the connection is dropped
      rw [if_pos hsize]
      apply leave_of_no_frame
      rw [hburst]
      exact nextFrame_cut hlen (by omega)
    · rw [if_neg hsize]
      rcases recvExact_cases { st.sock with inbound := inb } (leVal (hdr.take 3) - 8) with
        ⟨body, inb', hrecv', hlen', htokens'⟩ | ⟨result, inb', hrecv', hresult, hshort⟩
      · simp only [hrecv']
        have hframe : leVal (hdr.take 3) = 8 + body.length := by omega
        apply @process_spec server st ⟨⟨hdr, hlen⟩, body, hframe⟩ inb'
        · rw [htokens, htokens', Frame.bytes, List.map_append, List.append_assoc]
        · show 8 + body.length ≤ maxFrameBytes
          omega
      · have hnone : nextFrame maxFrameBytes
            ((burst (Peer.tokens st.sock.inbound)).map some) = none := by
          rw [hburst]
          exact nextFrame_cut hlen fun _ _ => hshort
        rw [hrecv']
        cases result with
        | error e => exact leave_of_no_frame inb' hnone
        | ok body =>
          cases body with
          | none => exact leave_of_no_frame inb' hnone
          | some body => exact absurd rfl (hresult body)
  · have hnone := @nextFrame_short maxFrameBytes _ hshort
    rw [hrecv]
    cases result with
    | error e => exact leave_of_no_frame inb hnone
    | ok hdr =>
      cases hdr with
      | none => exact leave_of_no_frame inb hnone
      | some hdr => exact absurd rfl (hresult hdr)

/-- The `k`-th reply answers the `k`-th frame that the handler accepts. -/
theorem replyTo_replies {frames : List Frame} {k : Nat} {query : Frame}
    (h : (frames.filter server.accepts)[k]? = some query) :
    ∃ reply, (server.replies 0 frames)[k]? = some reply ∧ server.ReplyTo k query reply := by
  refine ⟨server.replyFrame k query, ?_, server.replyTo_replyFrame k query⟩
  rw [replies, List.getElem?_mapIdx, h, Option.map_some, Nat.zero_add]

/-- On every connection `serve` returns, and it has written the replies to the frames of
the stream in front of the first timeout.  When a `send` fails, it has written the first
bytes of them. -/
theorem serve_spec (server : LogServer) (sock : Peer) :
    ∃ st, server.serve sock = some st ∧ server.Serves { sock, handled := 0 } st :=
  run_spec State.left (fun st _ => ⟨server.turn st, rfl, server.turn_spec st⟩)
    _ _ trivial (Nat.lt_succ_self _)

/-- A service answers the frames of its streams.  `queries` are the frames in front of the
first one that is cut or has a bad size, without those that the service skips: it writes
one reply for each of them, in their order.  When a `send` fails, it has written the first
bytes of these replies. -/
def AnswersFrames (server : LogServer) : Prop :=
  ∀ sock : Peer,
    let received := burst (Peer.tokens sock.inbound)
    let queries := (framesOf maxFrameBytes (received.map some)).filter server.accepts
    ∃ st replies out, server.serve sock = some st ∧
      replies.length = queries.length ∧
      (∀ k query, queries[k]? = some query →
        ∃ reply, replies[k]? = some reply ∧ server.ReplyTo k query reply) ∧
      st.sock.written = sock.written ++ out ∧ out <+: stream replies ∧
      (none ∉ sock.sends → out = stream replies)

theorem answersFrames (server : LogServer) : server.AnswersFrames := by
  intro sock
  obtain ⟨st, hserve, out, hwritten, hout, hall⟩ := server.serve_spec sock
  refine ⟨st, server.replies 0 (State.frames { sock, handled := 0 }), out, hserve, ?_, ?_,
    hwritten, hout, hall⟩
  · rw [replies, List.length_mapIdx]
    rfl
  · intro k query hquery
    exact replyTo_replies hquery

end LogServer

/-! ## The two services -/

/-- The handler of `read_evm_log`.  The endpoints may answer each query differently. -/
def evmServer (py : Interpreter) (rpc : Nat → Rpc) (chains : Nat → Option EvmLog.Chain) :
    LogServer where
  interfaceIndex := 3
  replySize := EvmLog.replySize
  handleQuery k payload := EvmLog.handleQuery py (rpc k) chains payload
  length_handleQuery _ _ _ _ h := EvmLog.length_handleQuery h
  replySize_lt := by decide

/-- The handler of `read_qubic_log`. -/
def qubicServer (py : Interpreter) (rpc : Nat → Rpc) (bobs : List Str) : LogServer where
  interfaceIndex := 4
  replySize := QubicLog.replySize
  handleQuery k payload := QubicLog.handleQuery py (rpc k) bobs payload
  length_handleQuery _ _ _ _ h := QubicLog.length_handleQuery h
  replySize_lt := by decide

/-- On every connection, whatever the chunks are, both services write one reply for each
query of their interface, in the order of the stream, and pass over every other frame. -/
theorem log_services_answer_frames (py : Interpreter) (rpc : Nat → Rpc)
    (chains : Nat → Option EvmLog.Chain) (bobs : List Str) :
    (evmServer py rpc chains).AnswersFrames ∧ (qubicServer py rpc bobs).AnswersFrames :=
  ⟨LogServer.answersFrames _, LogServer.answersFrames _⟩

/-- An unrelated frame of eight bytes, then a query without a transaction hash in two
chunks: one reply is written. -/
example :
    ((qubicServer .sample (fun _ _ _ _ _ => none) []).serve
      { inbound := [.data 8 [0, 0, 7, 0, 0, 0, 0, 72, 0, 0, 190],
          .data 0 (zeros 3 ++ leBytes 8 5 ++ leBytes 4 4 ++ zeros 52)]
        sends := [], written := [] }).map (·.sock.written) =
      some (leBytes 3 312 ++ [191] ++ zeros 4 ++ leBytes 8 5 ++ zeros 8 ++
        codeReply QubicLog.replySize QubicLog.badQuery) := by
  decide +kernel

end OracleMachine.Logs.Serve
