import OracleMachine.Node.InterfaceClient

/-!
# Replies in pieces

TCP keeps the bytes of a reply in order but not together: a `recv` returns the
bytes that have arrived, at most as many as it is asked for.  A `Division` of a
reply is the list of the chunks that successive `recv` calls return.  The
header is asked for alone, so no chunk has bytes of the header and of the
payload.

* `receiveExact_chunks`: the loop that reads the header puts every division
  together.
* The payload is read by one `receive`, and gets the first of its chunks
  (`receive_first`).
* `division_accepted_iff`: the attempt succeeds if and only if the payload is a
  single chunk.  A payload in two chunks fails, and so does a reply without a
  payload, whose `recv` for no bytes is taken for a close.
-/

namespace OracleMachine.Node

open Network Network.Wire
open Retries (Conditions resize)

variable {service : Service}

/-- The environment's choice for a `recv` that returns `chunk`. -/
def RecvChoice.ofChunk (chunk : List UInt8) : RecvChoice := .data (chunk.length - 1)

/-- A `recv` gets the chunk that the environment has for it. -/
theorem Channel.recv_chunk {ch : Channel service} {chunk tail : List UInt8}
    {recvs : List RecvChoice} {sz : Nat} (hrecvs : ch.recvs = .ofChunk chunk :: recvs)
    (hunread : ch.unread = chunk ++ tail) (hne : chunk ≠ []) (hsz : chunk.length ≤ sz) :
    Socket.recv ch sz = (.data chunk,
      { ch with consumed := ch.consumed + chunk.length, recvs := recvs }) := by
  have hpos : 0 < chunk.length := List.length_pos_iff.mpr hne
  show ch.recv sz = _
  unfold Channel.recv
  rw [if_neg (by omega), hrecvs]
  show Channel.deliver { ch with recvs := recvs } (min (chunk.length - 1 + 1) sz) = _
  have htake : ({ ch with recvs := recvs } : Channel service).unread.take
      (min (chunk.length - 1 + 1) sz) = chunk := by
    show ch.unread.take _ = chunk
    rw [hunread, show min (chunk.length - 1 + 1) sz = chunk.length by omega, List.take_left]
  unfold Channel.deliver
  rw [htake]
  cases chunk with
  | nil => exact absurd rfl hne
  | cons b bs => rfl

/-- A reply, divided into the chunks that the `recv` calls for its header and
for its payload return.  A call that returns no bytes is a close. -/
structure Division (reply : Frame) where
  header : List (List UInt8)
  payload : List (List UInt8)
  header_ne : [] ∉ header
  payload_ne : [] ∉ payload
  header_flatten : header.flatten = reply.header.bytes
  payload_flatten : payload.flatten = reply.payload

namespace InterfaceClient

/-! ## The loops -/

/-- A `receive` gets the chunk that the environment has for it. -/
theorem receive_chunk (session : Session (Channel service)) {chunk tail : List UInt8}
    {recvs : List RecvChoice} {sz : Nat} (hactive : session.active = true)
    (hopen : session.isOpen = true) (hrecvs : session.sock.recvs = .ofChunk chunk :: recvs)
    (hunread : session.sock.unread = chunk ++ tail) (hne : chunk ≠ [])
    (hsz : chunk.length ≤ sz) :
    session.receive sz = (.got chunk, afterRead session chunk.length recvs) := by
  have hrecv := Channel.recv_chunk hrecvs hunread hne hsz
  cases chunk with
  | nil => exact absurd rfl hne
  | cons b bs =>
    rw [Session.receive_data hactive hopen hrecv]
    rfl

/-- The loop puts the chunks together, one turn for each. -/
theorem receiveLoop_chunks {chunks : List (List UInt8)} {fuel sz : Nat} {acc tail : List UInt8}
    {recvs : List RecvChoice} {session : Session (Channel service)}
    (hactive : session.active = true) (hopen : session.isOpen = true) (hne : [] ∉ chunks)
    (hrecvs : session.sock.recvs = chunks.map .ofChunk ++ recvs)
    (hunread : session.sock.unread = chunks.flatten ++ tail)
    (hsz : acc.length + chunks.flatten.length = sz) (hfuel : chunks.flatten.length ≤ fuel) :
    session.receiveLoop fuel sz acc =
      (.got (acc ++ chunks.flatten), afterRead session chunks.flatten.length recvs) := by
  induction chunks generalizing fuel acc session with
  | nil =>
    have hend : ¬ acc.length < sz := by
      rw [List.flatten_nil, List.length_nil] at hsz
      omega
    have hsession : afterRead session 0 recvs = session := by
      rw [List.map_nil, List.nil_append] at hrecvs
      rw [← hrecvs]
      rfl
    rw [List.flatten_nil, List.append_nil, List.length_nil, hsession]
    cases fuel with
    | zero => rfl
    | succ fuel => rw [Session.receiveLoop, if_neg hend]
  | cons chunk chunks ih =>
    have hchunk : chunk ≠ [] := fun h => hne (h ▸ List.mem_cons_self)
    have hpos : 0 < chunk.length := List.length_pos_iff.mpr hchunk
    rw [List.flatten_cons, List.length_append] at hsz hfuel
    rw [List.flatten_cons, List.append_assoc] at hunread
    have hrecv : session.receive (sz - acc.length) =
        (.got chunk, afterRead session chunk.length (chunks.map .ofChunk ++ recvs)) :=
      receive_chunk session hactive hopen hrecvs hunread hchunk (by omega)
    cases fuel with
    | zero => omega
    | succ fuel =>
      rw [Session.receiveLoop_got (by omega) hchunk hrecv]
      have hrest : (afterRead session chunk.length
          (chunks.map .ofChunk ++ recvs)).sock.unread = chunks.flatten ++ tail := by
        rw [unread_afterRead, hunread, List.drop_left]
      have hih := @ih fuel (acc ++ chunk)
        (afterRead session chunk.length (chunks.map .ofChunk ++ recvs)) hactive hopen
        (fun h => hne (List.mem_cons_of_mem _ h)) rfl hrest
        (by rw [List.length_append]; omega) (by omega)
      rw [hih, afterRead_afterRead, List.append_assoc, List.flatten_cons, List.length_append]

/-- A `receiveExact` for all the bytes of the chunks gets them, whatever the chunks are. -/
theorem receiveExact_chunks (session : Session (Channel service))
    {chunks : List (List UInt8)} {tail : List UInt8} {recvs : List RecvChoice}
    (hactive : session.active = true) (hopen : session.isOpen = true) (hne : [] ∉ chunks)
    (hrecvs : session.sock.recvs = chunks.map .ofChunk ++ recvs)
    (hunread : session.sock.unread = chunks.flatten ++ tail) :
    session.receiveExact chunks.flatten.length =
      (.got chunks.flatten, afterRead session chunks.flatten.length recvs) :=
  receiveLoop_chunks hactive hopen hne hrecvs hunread (Nat.zero_add _) (Nat.le_refl _)

/-- A `send` that does not fail takes bytes. -/
theorem send_taken {ch : Channel service} (hsends : none ∉ ch.sends) (bs : List UInt8) :
    ∃ n ch', Socket.send ch bs = (some n, ch') ∧ none ∉ ch'.sends := by
  show ∃ n ch', ch.send bs = (some n, ch') ∧ none ∉ ch'.sends
  unfold Channel.send
  match hs : ch.sends with
  | [] =>
    rw [hs] at hsends
    exact ⟨_, _, rfl, hsends⟩
  | none :: rest =>
    rw [hs] at hsends
    exact absurd List.mem_cons_self hsends
  | some k :: rest =>
    rw [hs] at hsends
    exact ⟨_, _, rfl, fun h => hsends (List.mem_cons_of_mem _ h)⟩

theorem sendLoop_taken {fuel : Nat} {session : Session (Channel service)} {bs : List UInt8}
    (hsends : none ∉ session.sock.sends) (hfuel : bs.length ≤ fuel) :
    (session.sendLoop fuel bs).1 = true := by
  induction fuel generalizing session bs with
  | zero =>
    obtain rfl : bs = [] := List.eq_nil_of_length_eq_zero (by omega)
    rfl
  | succ fuel ih =>
    cases bs with
    | nil => rfl
    | cons b bs =>
      obtain ⟨n, ch, hsend, hrest⟩ := send_taken hsends (b :: bs)
      have hpos : 0 < n := Socket.send_pos _ _ _ _ hsend (List.cons_ne_nil b bs)
      rw [Session.sendLoop, hsend]
      apply ih hrest
      rw [List.length_drop]
      omega

/-- A query none of whose `send` calls fails is sent. -/
theorem sendData_taken (session : Session (Channel service)) {query : List UInt8}
    (hactive : session.active = true) (hopen : session.isOpen = true) (hquery : query ≠ [])
    (hsends : none ∉ session.sock.sends) :
    ∃ sends, session.sendData query = (true, afterSend session query sends) := by
  have htrue : (session.sendData query).1 = true := by
    unfold Session.sendData
    rw [if_neg (by simp [hactive, hopen, hquery])]
    exact sendLoop_taken hsends (Nat.le_refl _)
  cases hsend : session.sendData query with
  | mk ok session' =>
  rw [hsend] at htrue
  obtain rfl : ok = true := htrue
  obtain ⟨sends, rfl⟩ := sendData_channel hsend
  exact ⟨sends, rfl⟩

/-! ## One attempt -/

/-- The attempt in which the reply arrives in this division and nothing goes
wrong.  The payload is asked for once. -/
def divided {reply : Frame} (division : Division reply) (sends : List (Option Nat)) : Attempt where
  connects := true
  setTimeout := true
  shutdownBefore := false
  sends := sends
  headerRecvs := division.header.map .ofChunk
  payloadRecv := .ofChunk (division.payload.headD [])
  shutdownAfter := false

/-- The attempt delivers the reply and the session stays active.  The payload stands behind
the first eight bytes of the buffer, which are zeros in a new one. -/
structure Accepted (reply : Frame) (result : InterfaceQueryResult)
    (out : Int × InterfaceQueryResult × InterfaceClient service) : Prop where
  ret : out.1 = 1
  delivers : out.2.1.replyData = resize result.replyData 8 ++ reply.payload
  active : ∃ session, out.2.2.session = some session ∧ session.active = true

/-- The attempt fails for good and the session is closed. -/
structure Rejected (out : Int × InterfaceQueryResult × InterfaceClient service) : Prop where
  ret : out.1 = -1
  closed : ∃ session, out.2.2.session = some session ∧ session.isOpen = false

section attempt

variable {core : Core} {session : Session (Channel service)} {query rest : List UInt8}
  {reply : Frame} {sends : List (Option Nat)} {result : InterfaceQueryResult} {conn : Nat}

/-- In every division the header is received. -/
theorem receiveReply_divided (session : Session (Channel service)) (division : Division reply)
    (hactive : session.active = true) (hopen : session.isOpen = true)
    (hunread : session.sock.unread = reply.bytes ++ rest) :
    Retries.receiveReply core session (.ofAttempt conn (divided division sends)) result =
      Retries.receivePayload core
        (afterRead (withRecvs session (division.header.map .ofChunk)) 8 []) reply.header
        (.ofAttempt conn (divided division sends)) result := by
  have hheader : (withRecvs session (division.header.map .ofChunk)).sock.unread =
      division.header.flatten ++ (reply.payload ++ rest) := by
    show session.sock.unread = _
    rw [hunread, Frame.bytes, List.append_assoc, division.header_flatten]
  have hrecvs : (withRecvs session (division.header.map .ofChunk)).sock.recvs =
      division.header.map .ofChunk ++ [] := (List.append_nil _).symm
  have hread := receiveExact_chunks (withRecvs session (division.header.map .ofChunk)) hactive
    hopen division.header_ne hrecvs hheader
  rw [division.header_flatten, reply.header.length_bytes] at hread
  unfold Retries.receiveReply
  rw [beforeHeader_apply,
    show (divided division sends).headerRecvs = division.header.map .ofChunk from rfl,
    RequestResponseHeader.sizeOf, hread]
  simp only [Received.bytes, RequestResponseHeader.ofBytes?_eq_some reply.header.length_bytes]

/-- In every division the attempt gets to the payload. -/
theorem exchange_divided (division : Division reply) (hactive : session.active = true)
    (hopen : session.isOpen = true) (hquery : query ≠ []) (hsends : none ∉ sends)
    (hunread : ({ session.sock with sent := session.sock.sent ++ query } : Channel service).unread =
      reply.bytes ++ rest) :
    ∃ session' : Session (Channel service), session'.active = true ∧ session'.isOpen = true ∧
      session'.sock.unread = reply.payload ++ rest ∧
      Retries.exchange core session query (.ofAttempt conn (divided division sends)) result =
        Retries.receivePayload core session' reply.header
          (.ofAttempt conn (divided division sends)) result := by
  obtain ⟨sends', hsend⟩ := sendData_taken (withSends session sends) hactive hopen hquery hsends
  have hsent : (afterSend (withSends session sends) query sends').sock.unread =
      reply.bytes ++ rest := hunread
  refine ⟨afterRead (withRecvs (afterSend (withSends session sends) query sends')
    (division.header.map .ofChunk)) 8 [], hactive, hopen, ?_, ?_⟩
  · rw [unread_afterRead]
    show (afterSend (withSends session sends) query sends').sock.unread.drop 8 = _
    rw [hsent, Frame.bytes, List.append_assoc, List.drop_left' reply.header.length_bytes]
  · rw [← receiveReply_divided (afterSend (withSends session sends) query sends') division hactive
      hopen hsent]
    unfold Retries.exchange
    dsimp only
    rw [show (Conditions.ofAttempt conn (divided division sends)).beforeCheck.apply session =
        session from rfl, if_neg (by simp [Session.isActive, hactive]), beforeSend_apply,
      show (divided division sends).sends = sends from rfl, hsend]
    rfl

/-- The payload's `receive` gets the first chunk. -/
theorem receive_first (sends : List (Option Nat)) {division : Division reply} {chunk : List UInt8}
    {chunks : List (List UInt8)} (hpayload : division.payload = chunk :: chunks)
    (hactive : session.active = true) (hopen : session.isOpen = true)
    (hunread : session.sock.unread = reply.payload ++ rest) :
    (withRecvs session [(divided division sends).payloadRecv]).receive reply.payload.length =
      (.got chunk,
        afterRead (withRecvs session [(divided division sends).payloadRecv]) chunk.length []) := by
  have hflatten := division.payload_flatten
  have hne := division.payload_ne
  rw [hpayload] at hflatten hne
  rw [List.flatten_cons] at hflatten
  have hrecvs : (withRecvs session [(divided division sends).payloadRecv]).sock.recvs =
      [.ofChunk chunk] := by
    show [RecvChoice.ofChunk (division.payload.headD [])] = _
    rw [hpayload, List.headD_cons]
  have hfirst : (withRecvs session [(divided division sends).payloadRecv]).sock.unread =
      chunk ++ (chunks.flatten ++ rest) := by
    show session.sock.unread = _
    rw [hunread, ← hflatten, List.append_assoc]
  apply receive_chunk (withRecvs session [(divided division sends).payloadRecv]) hactive hopen
    hrecvs hfirst (fun h => hne (h ▸ List.mem_cons_self))
  rw [← hflatten, List.length_append]
  omega

/-- A payload in one chunk is received. -/
theorem receivePayload_whole {division : Division reply} (hactive : session.active = true)
    (hopen : session.isOpen = true) (hunread : session.sock.unread = reply.payload ++ rest)
    (hone : division.payload.length = 1) :
    let out := Retries.receivePayload core session reply.header
      (.ofAttempt conn (divided division sends)) result
    out.1 = 1 ∧ out.2.1.replyData = resize result.replyData 8 ++ reply.payload ∧
      out.2.2.active = true := by
  obtain ⟨chunk, hpayload⟩ := List.length_eq_one_iff.mp hone
  have hchunk : chunk = reply.payload := by
    rw [← division.payload_flatten, hpayload, List.flatten_singleton]
  have hrecv := receive_first sends hpayload hactive hopen hunread
  intro out
  have hout : out = _ := Retries.receivePayload_eq result (reply.size_eq core) hrecv
  rw [if_neg (by simp [Received.ret, hchunk])] at hout
  rw [hout, ← Retries.overwrite_resize]
  exact ⟨rfl, by rw [← hchunk]; rfl, hactive⟩

/-- A payload is not received when its `receive` does not get all of it. -/
theorem receivePayload_short {env : Attempt} (hopen : session.isOpen = true)
    (hret : ((withRecvs session [env.payloadRecv]).receive reply.payload.length).1.ret ≠
      reply.payload.length) :
    let out := Retries.receivePayload core session reply.header (.ofAttempt conn env) result
    out.1 = -1 ∧ out.2.2.isOpen = false := by
  have hstill := Session.isOpen_receive (withRecvs session [env.payloadRecv])
    reply.payload.length
  cases hrecv : (withRecvs session [env.payloadRecv]).receive reply.payload.length with
  | mk received session' =>
  rw [hrecv] at hret hstill
  have hopen' : session'.isOpen = true := hstill.trans hopen
  intro out
  have hout : out = _ := Retries.receivePayload_eq result (reply.size_eq core) hrecv
  rw [if_pos hret] at hout
  rw [hout]
  exact ⟨rfl, by rw [Session.close, if_pos hopen']⟩

/-- A payload in several chunks, or in none, is not received. -/
theorem receivePayload_pieces {division : Division reply} (hactive : session.active = true)
    (hopen : session.isOpen = true) (hunread : session.sock.unread = reply.payload ++ rest)
    (hpieces : division.payload.length ≠ 1) :
    let out := Retries.receivePayload core session reply.header
      (.ofAttempt conn (divided division sends)) result
    out.1 = -1 ∧ out.2.2.isOpen = false := by
  apply receivePayload_short hopen
  have hflatten := division.payload_flatten
  match hpayload : division.payload with
  | [] =>
    -- the `recv` for no bytes answers `0`, which is taken for a close
    have hrecv : (withRecvs session [(divided division sends).payloadRecv]).receive 0 =
        (.failed, _) := Session.receive_closed hactive hopen (Channel.recv_zero _)
    rw [hpayload, List.flatten_nil] at hflatten
    rw [← hflatten, List.length_nil, hrecv]
    simp [Received.ret]
  | [chunk] =>
    rw [hpayload] at hpieces
    exact absurd rfl hpieces
  | chunk :: next :: chunks =>
    -- the `receive` gets the first chunk, and the second has at least one byte
    have hne := division.payload_ne
    rw [hpayload] at hflatten hne
    have hnext : 0 < next.length := List.length_pos_iff.mpr (fun h => hne (by simp [h]))
    rw [receive_first sends hpayload hactive hopen hunread, Received.ret, ← hflatten]
    simp only [List.flatten_cons, List.length_append]
    omega

/-- The attempt of a client with a session. -/
theorem sendAndReceive_eq {client : InterfaceClient service}
    (hsession : client.session = some session) (query : List UInt8) (env : Attempt)
    (result : InterfaceQueryResult) :
    let out := Retries.exchange core session query (.ofAttempt client.nextConn env) result
    (client.sendAndReceive core query env result).1 = out.1 ∧
      (client.sendAndReceive core query env result).2.1 = out.2.1 ∧
      (client.sendAndReceive core query env result).2.2.session = some out.2.2 := by
  obtain ⟨⟨current, sound⟩, nextConn⟩ := client
  obtain rfl : current = some session := hsession
  exact ⟨rfl, rfl, rfl⟩

/-- Every division of the payload but the one into a single chunk makes the attempt fail. -/
theorem rejected_of_pieces {client : InterfaceClient service} (division : Division reply)
    (hsession : client.session = some session)
    (hactive : session.active = true) (hopen : session.isOpen = true) (hquery : query ≠ [])
    (hsends : none ∉ sends)
    (hunread : ({ session.sock with sent := session.sock.sent ++ query } : Channel service).unread =
      reply.bytes ++ rest) (hpieces : division.payload.length ≠ 1) :
    Rejected (client.sendAndReceive core query (divided division sends) result) := by
  obtain ⟨hrc, -, hafter⟩ := @sendAndReceive_eq service core session client hsession query
    (divided division sends) result
  obtain ⟨session', hactive', hopen', hunread', heq⟩ :=
    @exchange_divided service core session query rest reply sends result client.nextConn division
      hactive hopen hquery hsends hunread
  rw [heq] at hrc hafter
  obtain ⟨hret, hclosed⟩ := @receivePayload_pieces service core session' rest reply sends result
    client.nextConn division hactive' hopen' hunread' hpieces
  exact ⟨hrc.trans hret, _, hafter, hclosed⟩

end attempt

/-- Segmentation.  For every reply and every division of it, with no failure
before its last byte, an attempt on an active session delivers the reply and
leaves the session active if and only if the payload is a single chunk. -/
theorem division_accepted_iff (core : Core) (client : InterfaceClient service)
    (session : Session (Channel service)) (query : List UInt8) (reply : Frame)
    (division : Division reply) (rest : List UInt8) (sends : List (Option Nat))
    (result : InterfaceQueryResult) (hsession : client.session = some session)
    (hactive : session.active = true) (hopen : session.isOpen = true) (hquery : query ≠ [])
    (hsends : none ∉ sends)
    (hunread : ({ session.sock with sent := session.sock.sent ++ query } : Channel service).unread =
      reply.bytes ++ rest) :
    Accepted reply result (client.sendAndReceive core query (divided division sends) result) ↔
      division.payload.length = 1 := by
  constructor
  · intro haccepted
    by_contra hpieces
    have hrejected : Rejected
        (client.sendAndReceive core query (divided division sends) result) :=
      rejected_of_pieces division hsession hactive hopen hquery hsends hunread hpieces
    have hret := haccepted.ret.symm.trans hrejected.ret
    omega
  · intro hone
    obtain ⟨hrc, hresult, hafter⟩ := @sendAndReceive_eq service core session client hsession query
      (divided division sends) result
    obtain ⟨session', hactive', hopen', hunread', heq⟩ :=
      @exchange_divided service core session query rest reply sends result client.nextConn division
        hactive hopen hquery hsends hunread
    rw [heq] at hrc hresult hafter
    obtain ⟨hret, hdelivers, hstill⟩ := @receivePayload_whole service core session' rest reply
      sends result client.nextConn division hactive' hopen' hunread' hone
    exact ⟨hrc.trans hret, (congrArg InterfaceQueryResult.replyData hresult).trans hdelivers,
      _, hafter, hstill⟩

/-- A service that always gives the same reply. -/
def always (reply : Frame) : Service := fun _ _ => reply

/-- A client that has just connected. -/
def connected (service : Service) : InterfaceClient service where
  session := (Retries.connect none (.ofAttempt 0 (attemptWith []))).2
  sound := Retries.sound_connect Retries.sound_none _
  nextConn := 1

/-- A reply with two bytes of payload. -/
def twoBytes : Frame where
  header := ⟨[10, 0, 0, 191, 0, 0, 0, 0], rfl⟩
  payload := [1, 2]
  sizeField_eq := rfl

/-- A reply without a payload. -/
def noBytes : Frame where
  header := ⟨[8, 0, 0, 191, 0, 0, 0, 0], rfl⟩
  payload := []
  sizeField_eq := rfl

/-- The header in two chunks, the payload in one. -/
def wholePayload : Division twoBytes where
  header := [[10, 0, 0], [191, 0, 0, 0, 0]]
  payload := [[1, 2]]
  header_ne := by decide
  payload_ne := by decide
  header_flatten := rfl
  payload_flatten := rfl

/-- The header in one chunk, the payload in two. -/
def splitPayload : Division twoBytes where
  header := [[10, 0, 0, 191, 0, 0, 0, 0]]
  payload := [[1], [2]]
  header_ne := by decide
  payload_ne := by decide
  header_flatten := rfl
  payload_flatten := rfl

/-- The header in one chunk, and no payload. -/
def emptyPayload : Division noBytes where
  header := [[8, 0, 0, 191, 0, 0, 0, 0]]
  payload := []
  header_ne := by decide
  payload_ne := by decide
  header_flatten := rfl
  payload_flatten := rfl

/-- A first request whose reply comes with a split header. -/
theorem whole_payload_accepted :
    Accepted twoBytes { replyData := [], valid := false }
      ((connected (always twoBytes)).sendAndReceive Core.sample
        (byteQuery 7).bytes (divided wholePayload [some 2])
        { replyData := [], valid := false }) :=
  (division_accepted_iff Core.sample (connected (always twoBytes)) _ (byteQuery 7).bytes twoBytes
    wholePayload [] [some 2] { replyData := [], valid := false } rfl rfl rfl (by decide) (by decide)
    (by decide)).mpr rfl

/-- A payload in two chunks, and a reply without a payload: the attempts return
`-1` and close the session. -/
theorem split_payload_rejected :
    let split := (connected (always twoBytes)).sendAndReceive Core.sample (byteQuery 7).bytes
      (divided splitPayload []) { replyData := [], valid := false }
    let empty := (connected (always noBytes)).sendAndReceive Core.sample (byteQuery 7).bytes
      (divided emptyPayload []) { replyData := [], valid := false }
    split.1 = -1 ∧ split.2.2.session.map (·.active) = some false ∧
      ¬ Accepted twoBytes { replyData := [], valid := false } split ∧
      empty.1 = -1 ∧ empty.2.2.session.map (·.active) = some false ∧
      ¬ Accepted noBytes { replyData := [], valid := false } empty := by
  refine ⟨by decide, by decide, fun h => ?_, by decide, by decide, fun h => ?_⟩
  · exact absurd h.ret (by decide)
  · exact absurd h.ret (by decide)

end InterfaceClient

end OracleMachine.Node
