import OracleMachine.Lib.Loop
import OracleMachine.Network.Framing

/-!
# The node's connection to the OM node

`NodeConnection::handleSession` serves one Qubic node: it reads frames, hands
the queries to the request handler and writes the answers back.  The model is
the loop of the source over a `Peer` socket, with the receive buffer that all
frames of the session share.

The handler is whatever the connection was given.  Its answer may depend on
anything outside the session, so the model takes the answer to the `k`-th call
as a function of `k` and of the arguments.  The random `dejavu` of the `k`-th
answer is a function of `k` for the same reason.

* `turn` is one pass of the loop, and `turn_spec` says what it does in terms of
  `nextFrame`.
* `Served` is what a session may do with its queries: answer them one by one,
  up to a failed send.
* `pass_spec` is the case of one pass for the loop rule `run_spec`, and
  `handleSession_answers` is the result for a whole connection.
-/

namespace OracleMachine.Node

open Lib.Loop Network Network.Wire Network.Framing

/-- The answers of the request handler: the `k`-th call of a session, on a
header and a payload. -/
abbrev Handler := Nat → RequestResponseHeader → List UInt8 → List UInt8

/-- `NodeConnection`, with the random numbers its answers draw. -/
structure NodeConnection where
  core : Core
  handler : Option Handler
  dejavu : Nat → UInt32

namespace NodeConnection

/-- The local state of `handleSession`.  `calls` records the calls of the
handler. -/
structure State where
  session : Session Peer
  buffer : List UInt8
  calls : List (RequestResponseHeader × List UInt8)

/-- `std::vector<uint8_t> buffer(0xFFFF)`. -/
def bufferSize : Nat := 0xFFFF

/-- `NodeConnection::sendResponseToNode`. -/
def sendResponseToNode (nc : NodeConnection) (session : Session Peer) (type : UInt8)
    (payload : List UInt8) (dejavu : UInt32) : Bool × Session Peer :=
  let header := RequestResponseHeader.make nc.core
    (RequestResponseHeader.sizeOf + payload.length) type dejavu
  match session.sendData header.bytes with
  | (false, session) => (false, session)
  | (true, session) =>
    if 0 < payload.length then session.sendData payload else (true, session)

/-- The header of the next frame: the read is repeated as long as it answers
`0`. -/
def receiveHeader : Nat → Session Peer → Option (Received × Session Peer)
  | 0, _ => none
  | fuel + 1, session =>
    match session.receiveExact RequestResponseHeader.sizeOf with
    | (.got [], session) => receiveHeader fuel session
    | out => some out

/-- The payload of a frame into the front of the buffer, and whether all of it
arrived. -/
def receivePayload (session : Session Peer) (buffer : List UInt8) (payloadSize : Nat) :
    Bool × List UInt8 × Session Peer :=
  if 0 < payloadSize then
    let (received, session) := session.receiveExact payloadSize
    (received.ret == payloadSize,
      received.bytes ++ buffer.drop received.bytes.length, session)
  else (true, buffer, session)

/-- What the loop does with a complete frame. -/
def process (nc : NodeConnection) (st : State) (header : RequestResponseHeader)
    (payloadSize : Nat) : State :=
  if header.type ≠ OracleMachineQuery.type then st
  else
    match nc.handler with
    | none => st
    | some handler =>
      let payload := st.buffer.take payloadSize
      let k := st.calls.length
      let response := handler k header payload
      let st := { st with calls := st.calls ++ [(header, payload)] }
      if response.isEmpty then st
      else
        { st with
          session := (nc.sendResponseToNode st.session OracleMachineReply.type response
            (nc.dejavu k)).2 }

/-- The part of the loop behind a complete header. -/
def receiveFrame (nc : NodeConnection) (st : State) (header : RequestResponseHeader) :
    Turn State :=
  let packetSize := header.size nc.core
  if bufferSize < packetSize ∨ packetSize < RequestResponseHeader.sizeOf then .leave st
  else
    let payloadSize := packetSize - RequestResponseHeader.sizeOf
    match receivePayload st.session st.buffer payloadSize with
    | (false, buffer, session) => .leave { st with session, buffer }
    | (true, buffer, session) =>
      .again (nc.process { st with session, buffer } header payloadSize)

/-- The body of the session loop. -/
def turn (nc : NodeConnection) (st : State) : Option (Turn State) :=
  match receiveHeader ((Peer.tokens st.session.sock.inbound).length + 1) st.session with
  | none => none
  | some (received, session) =>
    match RequestResponseHeader.ofBytes? received.bytes with
    -- received != sizeof(header)
    | none => some (.leave { st with session })
    | some header => some (nc.receiveFrame { st with session } header)

/-- One pass of the loop `while (session.isActive())`. -/
def pass (nc : NodeConnection) (st : State) : Option (Turn State) :=
  if st.session.isActive then nc.turn st else some (.leave st)

/-- `NodeConnection::handleSession`.  Every pass takes a frame from the stream,
so the length of the stream is enough fuel. -/
def handleSession (nc : NodeConnection) (session : Session Peer) : Option State :=
  run nc.pass ((Peer.tokens session.sock.inbound).length + 1)
    { session, buffer := List.replicate bufferSize 0, calls := [] }

/-! ## Receiving one frame -/

/-- The repeated read of the header passes the idle timeouts. -/
theorem receiveHeader_spec (fuel : Nat) (session : Session Peer)
    (hactive : session.active = true) (hopen : session.isOpen = true)
    (hfuel : (Peer.tokens session.sock.inbound).length < fuel) :
    ∃ out, receiveHeader fuel session = some out ∧
      session.Answers (readExact 8 (skipIdle (Peer.tokens session.sock.inbound))) out := by
  induction fuel generalizing session with
  | zero => omega
  | succ fuel ih =>
    have hread := session.receiveExact_peer 8 hactive hopen
    match hts : Peer.tokens session.sock.inbound with
    | none :: ts =>
      rw [hts] at hread hfuel
      obtain ⟨inb, hout, rfl⟩ := hread
      obtain ⟨out, heq, hans⟩ := ih (session.withInbound inb) hactive hopen
        (by simpa using hfuel)
      rw [Session.answers_withInbound] at hans
      exact ⟨out, by rw [receiveHeader, RequestResponseHeader.sizeOf, hout]; exact heq, hans⟩
    | [] =>
      rw [hts] at hread
      obtain ⟨inb, hout⟩ := hread
      exact ⟨_, by rw [receiveHeader, RequestResponseHeader.sizeOf, hout]; rfl, inb, rfl⟩
    | some b :: ts =>
      rw [hts] at hread
      refine ⟨session.receiveExact 8, ?_, hread⟩
      -- at least the byte `b` is there, so the answer is not `0`
      have hne : ∀ session', session.receiveExact 8 ≠ (.got [], session') := by
        intro session' h
        rw [h, readExact] at hread
        cases hr : readExact 7 ts with
        | full bs rest =>
          rw [hr] at hread
          obtain ⟨inb, hout, -⟩ := hread
          simp at hout
        | stalled bs rest =>
          rw [hr] at hread
          obtain ⟨inb, hout, -⟩ := hread
          simp at hout
        | ended bs =>
          rw [hr] at hread
          obtain ⟨inb, hout⟩ := hread
          simp at hout
      rw [receiveHeader, RequestResponseHeader.sizeOf]
      split
      · rename_i session' h
        exact absurd h (hne session')
      · rfl

/-- A payload that is there in full is put into the buffer, and the rest of
the stream stays. -/
theorem receivePayload_full {session : Session Peer} (buffer : List UInt8)
    {payload : List UInt8} {n : Nat} {rest : List (Option UInt8)} (hactive : session.active = true)
    (hopen : session.isOpen = true)
    (h : readExact n (Peer.tokens session.sock.inbound) = .full payload rest) :
    ∃ inb buffer', receivePayload session buffer n =
        (true, buffer', session.withInbound inb) ∧
      Peer.tokens inb = rest ∧ buffer'.take n = payload := by
  obtain ⟨hlen, hts⟩ := readExact_eq_full h
  rw [receivePayload]
  split
  · have hread := session.receiveExact_peer n hactive hopen
    rw [h] at hread
    obtain ⟨inb, hout, hrest⟩ := hread
    refine ⟨inb, payload ++ buffer.drop payload.length, ?_, hrest, ?_⟩
    · simp [hout, Received.ret, Received.bytes, hlen]
    · rw [← hlen, List.take_left']
      rfl
  · obtain rfl : n = 0 := by omega
    obtain rfl : payload = [] := List.eq_nil_of_length_eq_zero hlen
    exact ⟨session.sock.inbound, buffer, rfl, by simpa using hts, by simp⟩

/-- A payload that is not there in full ends the session. -/
theorem receivePayload_short {session : Session Peer} (buffer : List UInt8) {n : Nat}
    (hactive : session.active = true) (hopen : session.isOpen = true)
    (h : ∀ payload rest,
      readExact n (Peer.tokens session.sock.inbound) ≠ .full payload rest) :
    ∃ buffer' session', receivePayload session buffer n = (false, buffer', session') ∧
      session'.sock.written = session.sock.written ∧
      session'.sock.sends = session.sock.sends := by
  have hlt := length_bytes_readExact_lt h
  have hread := session.receiveExact_peer n hactive hopen
  rw [receivePayload, if_pos (by omega)]
  generalize session.receiveExact n = out at hread ⊢
  obtain ⟨received, session'⟩ := out
  have hbytes := Session.bytes_of_answers hread
  have hret := received.ret_le
  have hne : received.ret ≠ n := by
    simp only at hbytes
    rw [hbytes] at hret
    omega
  exact ⟨received.bytes ++ buffer.drop received.bytes.length, session', by simpa using hne,
    Session.sock_of_answers hread⟩

/-- What one pass does when the stream gives `next`: without a next frame it
leaves the loop and has written nothing.  Otherwise it processes that frame,
and the payload is what stands first in the buffer. -/
def TurnSpec (nc : NodeConnection) (st : State) :
    Option (Frame × List (Option UInt8)) → Turn State → Prop
  | none, out =>
    ∃ st', out = .leave st' ∧ st'.calls = st.calls ∧
      st'.session.sock.written = st.session.sock.written ∧
      st'.session.sock.sends = st.session.sock.sends
  | some (f, rest), out =>
    ∃ inb buffer, out = .again (nc.process
        { st with session := st.session.withInbound inb, buffer := buffer }
        f.header f.payload.length) ∧
      Peer.tokens inb = rest ∧ buffer.take f.payload.length = f.payload

theorem turnSpec_withInbound (nc : NodeConnection) (st : State) (inb : List Inbound)
    (next : Option (Frame × List (Option UInt8))) (out : Turn State) :
    nc.TurnSpec { st with session := st.session.withInbound inb } next out =
      nc.TurnSpec st next out := by
  rcases next with _ | ⟨f, rest⟩ <;> rfl

theorem receiveFrame_spec (nc : NodeConnection) (st : State)
    (header : RequestResponseHeader)
    (hactive : st.session.active = true) (hopen : st.session.isOpen = true) :
    nc.TurnSpec st (payloadOf bufferSize header (Peer.tokens st.session.sock.inbound))
      (nc.receiveFrame st header) := by
  have hsize := header.size_le_iff nc.core (le_refl bufferSize)
  by_cases hvalid : 8 ≤ header.sizeField ∧ header.sizeField ≤ bufferSize
  · have hfield : header.size nc.core = header.sizeField :=
      RequestResponseHeader.size_eq_sizeField (by omega)
    have hif : ¬(bufferSize < header.sizeField ∨ header.sizeField < 8) := by omega
    simp only [receiveFrame, RequestResponseHeader.sizeOf, hfield, if_neg hif]
    by_cases hfull : ∃ payload rest,
        readExact (header.sizeField - 8) (Peer.tokens st.session.sock.inbound) =
          .full payload rest
    · obtain ⟨payload, rest, hread⟩ := hfull
      have hlen := (readExact_eq_full hread).1
      obtain ⟨inb, buffer, hrecv, hrest, hbuffer⟩ :=
        receivePayload_full st.buffer hactive hopen hread
      have hframe : header.sizeField = 8 + payload.length := by omega
      have hsome := payloadOf_frame ⟨header, payload, hframe⟩ rest (hframe ▸ hvalid.2)
      rw [← (readExact_eq_full hread).2] at hsome
      rw [hsome, hrecv]
      rw [← hlen] at hbuffer ⊢
      exact ⟨inb, buffer, rfl, hrest, hbuffer⟩
    · push Not at hfull
      obtain ⟨buffer, session, hrecv, hquiet⟩ :=
        receivePayload_short st.buffer hactive hopen hfull
      have hnone : payloadOf bufferSize header (Peer.tokens st.session.sock.inbound) = none := by
        unfold payloadOf
        rw [if_pos hvalid.2]
        split
        · rename_i payload rest hread
          exact absurd hread (hfull payload rest)
        · rfl
      rw [hnone, hrecv]
      exact ⟨{ st with session, buffer }, rfl, rfl, hquiet⟩
  · rw [payloadOf_eq_none _ hvalid, receiveFrame, if_pos]
    · exact ⟨st, rfl, rfl, rfl, rfl⟩
    · simp only [RequestResponseHeader.sizeOf]
      omega

theorem turn_spec (nc : NodeConnection) (st : State)
    (hactive : st.session.active = true) (hopen : st.session.isOpen = true) :
    ∃ out, nc.turn st = some out ∧
      nc.TurnSpec st (nextFrame bufferSize (Peer.tokens st.session.sock.inbound)) out := by
  obtain ⟨⟨received, session⟩, hheader, hans⟩ :=
    receiveHeader_spec _ st.session hactive hopen (Nat.lt_succ_self _)
  have hbytes := Session.bytes_of_answers hans
  have hquiet := Session.sock_of_answers hans
  simp only at hbytes hquiet
  have hshort : ∀ r, readExact 8 (skipIdle (Peer.tokens st.session.sock.inbound)) = r →
      r.bytes.length < 8 → nc.turn st = some (.leave { st with session }) := by
    intro r hr hlt
    rw [turn, hheader]
    simp only [hbytes, hr, RequestResponseHeader.ofBytes?_eq_none (Nat.ne_of_lt hlt)]
  rw [nextFrame]
  cases hr : readExact 8 (skipIdle (Peer.tokens st.session.sock.inbound)) with
  | stalled bs rest =>
    exact ⟨_, hshort _ hr (readExact_eq_stalled hr).1, { st with session }, rfl, rfl, hquiet⟩
  | ended bs =>
    exact ⟨_, hshort _ hr (readExact_eq_ended hr).1, { st with session }, rfl, rfl, hquiet⟩
  | full hdr rest =>
    have hlen := (readExact_eq_full hr).1
    rw [hr] at hans
    obtain ⟨inb, hout, hrest⟩ := hans
    obtain ⟨rfl, rfl⟩ := Prod.mk.inj hout
    refine ⟨nc.receiveFrame { st with session := st.session.withInbound inb } ⟨hdr, hlen⟩,
      ?_, ?_⟩
    · rw [turn, hheader]
      simp only [Received.bytes, RequestResponseHeader.ofBytes?_eq_some hlen]
    · have hspec := nc.receiveFrame_spec
        { st with session := st.session.withInbound inb } ⟨hdr, hlen⟩ hactive hopen
      simp only [RequestResponseHeader.ofBytes?_eq_some hlen, Option.bind_some]
      rw [turnSpec_withInbound] at hspec
      rw [← hrest]
      exact hspec

/-! ## Answering one query -/

/-- The header of the answer to the `k`-th call. -/
def replyHeader (nc : NodeConnection) (k : Nat) (response : List UInt8) :
    RequestResponseHeader :=
  RequestResponseHeader.make nc.core (8 + response.length) OracleMachineReply.type
    (nc.dejavu k)

/-- The bytes that answer the `k`-th call: a frame, or nothing when the
handler has no response. -/
def reply (nc : NodeConnection) (handler : Handler) (k : Nat) (f : Frame) : List UInt8 :=
  let response := handler k f.header f.payload
  if response = [] then [] else (nc.replyHeader k response).bytes ++ response

/-- A response is written up to the first failed send, header first. -/
theorem sendResponseToNode_spec (nc : NodeConnection) (session : Session Peer) (k : Nat)
    (response : List UInt8) (hactive : session.active = true)
    (hopen : session.isOpen = true) (hne : response ≠ []) :
    ∃ ok used sends pre,
      nc.sendResponseToNode session OracleMachineReply.type response (nc.dejavu k) =
        (ok, { session.withWritten sends pre with active := ok }) ∧
      session.sock.sends = used ++ sends ∧ (ok = true ↔ none ∉ used) ∧
      pre <+: (nc.replyHeader k response).bytes ++ response ∧
      (ok = true ↔ pre = (nc.replyHeader k response).bytes ++ response) := by
  have hheader : (nc.replyHeader k response).bytes ≠ [] := by
    intro h
    have hlen := (nc.replyHeader k response).length_bytes
    rw [h] at hlen
    simp at hlen
  unfold sendResponseToNode
  show ∃ ok used sends pre, (match session.sendData (nc.replyHeader k response).bytes with
    | (false, session) => (false, session)
    | (true, session) =>
      if 0 < response.length then session.sendData response else (true, session)) = _ ∧ _
  obtain ⟨ok, used, sends, pre, hsend, hused, hok, hpre, hfull⟩ :=
    session.sendData_peer _ hactive hopen hheader
  rw [hsend]
  cases ok with
  | false =>
    refine ⟨false, used, sends, pre, rfl, hused, hok, hpre.trans (List.prefix_append _ _), ?_⟩
    -- the header is cut, so the whole is
    have hlt : pre ≠ (nc.replyHeader k response).bytes ++ response := by
      rintro rfl
      have hlen := hpre.length_le
      rw [List.length_append] at hlen
      exact hne (List.eq_nil_of_length_eq_zero (by omega))
    simpa using hlt
  | true =>
    obtain rfl : pre = _ := hfull.mp rfl
    have hsession : ({ session.withWritten sends (nc.replyHeader k response).bytes with
        active := true } : Session Peer).active = true := rfl
    obtain ⟨ok', used', sends', pre', hsend', hused', hok', hpre', hfull'⟩ :=
      Session.sendData_peer _ response hsession hopen hne
    simp only [if_pos (List.length_pos_iff.mpr hne), hsend']
    refine ⟨ok', used ++ used', sends', (nc.replyHeader k response).bytes ++ pre', ?_, ?_,
      ?_, ?_, ?_⟩
    · simp [Session.withWritten]
    · rw [hused, List.append_assoc, ← hused']
      rfl
    · simp [hok', hok.mp rfl]
    · exact (List.prefix_append_right_inj _).mpr hpre'
    · rw [hfull', List.append_right_inj]

/-- A query is handed to the handler, and its answer is written up to the
first failed send. -/
theorem process_query (nc : NodeConnection) {handler : Handler}
    (hhandler : nc.handler = some handler) (st : State) (f : Frame)
    (htype : f.header.type = OracleMachineQuery.type)
    (hbuffer : st.buffer.take f.payload.length = f.payload)
    (hactive : st.session.active = true) (hopen : st.session.isOpen = true) :
    ∃ ok used sends pre,
      nc.process st f.header f.payload.length =
        { st with
          calls := st.calls ++ [(f.header, f.payload)],
          session := { st.session.withWritten sends pre with active := ok } } ∧
      st.session.sock.sends = used ++ sends ∧ (ok = true ↔ none ∉ used) ∧
      pre <+: nc.reply handler st.calls.length f ∧
      (ok = true ↔ pre = nc.reply handler st.calls.length f) := by
  unfold process
  rw [if_neg (by simpa using htype), hhandler]
  simp only [hbuffer, reply]
  by_cases hne : handler st.calls.length f.header f.payload = []
  · refine ⟨true, [], st.session.sock.sends, [], ?_, rfl, by simp, by simp, by simp [hne]⟩
    simp [hne, Session.withWritten, ← hactive]
  · obtain ⟨ok, used, sends, pre, hsend, hspec⟩ :=
      nc.sendResponseToNode_spec st.session st.calls.length _ hactive hopen hne
    refine ⟨ok, used, sends, pre, ?_, by simpa [hne] using hspec⟩
    simp [hne, hsend]

/-! ## A whole session -/

/-- What a session may do with its queries, where `reply k f` answers the
`k`-th call: it answers them in order, and a reply that is cut is the last one.
`ok` says that none was cut. -/
inductive Served (reply : Nat → Frame → List UInt8) :
    Nat → List Frame → List Frame → List UInt8 → Bool → Prop where
  | nil (k : Nat) : Served reply k [] [] [] true
  | answered {k : Nat} {f : Frame} {fs called : List Frame} {out : List UInt8} {ok : Bool}
      (rest : Served reply (k + 1) fs called out ok) :
      Served reply k (f :: fs) (f :: called) (reply k f ++ out) ok
  | cut {k : Nat} {f : Frame} (fs : List Frame) {out : List UInt8}
      (hpre : out <+: reply k f) (hne : out ≠ reply k f) :
      Served reply k (f :: fs) [f] out false

/-- The frames that are queries. -/
def queriesOf (fs : List Frame) : List Frame :=
  fs.filter fun f => f.header.type = OracleMachineQuery.type

theorem queriesOf_cons_query {f : Frame} {fs : List Frame}
    (h : f.header.type = OracleMachineQuery.type) :
    queriesOf (f :: fs) = f :: queriesOf fs := by
  simp [queriesOf, h]

theorem queriesOf_cons_other {f : Frame} {fs : List Frame}
    (h : f.header.type ≠ OracleMachineQuery.type) :
    queriesOf (f :: fs) = queriesOf fs := by
  simp [queriesOf, h]

/-- The queries that a session still has to serve: none once it is
inactive. -/
def pending (st : State) : List Frame :=
  if st.session.active then
    queriesOf (framesOf bufferSize (Peer.tokens st.session.sock.inbound))
  else []

/-- What the loop has done between two states.  `used` are the outcomes of its
`send` calls. -/
def Outcome (nc : NodeConnection) (handler : Handler) (st st' : State) : Prop :=
  ∃ called out used ok,
    Served (nc.reply handler) st.calls.length (pending st) called out ok ∧
    st'.calls = st.calls ++ called.map (fun f => (f.header, f.payload)) ∧
    st'.session.sock.written = st.session.sock.written ++ out ∧
    st.session.sock.sends = used ++ st'.session.sock.sends ∧
    (ok = true ↔ none ∉ used)

theorem outcome_of_pending_nil {nc : NodeConnection} {handler : Handler} {st st' : State}
    (hpending : pending st = []) (hcalls : st'.calls = st.calls)
    (hwritten : st'.session.sock.written = st.session.sock.written)
    (hsends : st'.session.sock.sends = st.session.sock.sends) :
    nc.Outcome handler st st' := by
  refine ⟨[], [], [], true, ?_, by simp [hcalls], by simp [hwritten], by simp [hsends],
    by simp⟩
  rw [hpending]
  exact .nil _

/-- An inactive session does nothing more. -/
theorem Outcome.inactive {nc : NodeConnection} {handler : Handler} {st st' : State}
    (h : nc.Outcome handler st st') (hactive : st.session.active = false) :
    st'.calls = st.calls ∧ st'.session.sock.written = st.session.sock.written ∧
      ∃ used, st.session.sock.sends = used ++ st'.session.sock.sends := by
  obtain ⟨called, out, used, ok, hserved, hcalls, hwritten, hsends, -⟩ := h
  simp only [pending, hactive, Bool.false_eq_true, if_false] at hserved
  cases hserved
  exact ⟨by simpa using hcalls, by simpa using hwritten, used, hsends⟩

/-- A pass over a query composes with the rest of the loop. -/
theorem outcome_process {nc : NodeConnection} {handler : Handler}
    (hhandler : nc.handler = some handler) {st : State} {f : Frame} {inb : List Inbound}
    {buffer : List UInt8} (hactive : st.session.active = true)
    (hopen : st.session.isOpen = true)
    (hbuffer : buffer.take f.payload.length = f.payload)
    (htype : f.header.type = OracleMachineQuery.type)
    (hpending : pending st = f :: queriesOf (framesOf bufferSize (Peer.tokens inb))) :
    let st₁ := nc.process { st with session := st.session.withInbound inb, buffer := buffer }
      f.header f.payload.length
    st₁.session.isOpen = true ∧ st₁.session.sock.inbound = inb ∧
      ∀ st', nc.Outcome handler st₁ st' → nc.Outcome handler st st' := by
  intro st₁
  obtain ⟨ok, used, sends, pre, hproc, hused, hok, hpre, hfull⟩ :=
    nc.process_query hhandler
      { st with session := st.session.withInbound inb, buffer := buffer } f htype hbuffer
      hactive hopen
  have hst₁ : st₁ = _ := hproc
  refine ⟨by rw [hst₁]; exact hopen, by rw [hst₁]; rfl, ?_⟩
  intro st' hrest
  unfold Outcome
  rw [hpending]
  rw [hst₁] at hrest
  cases ok with
  | false =>
    -- the failed send made the session inactive, so this is the last call
    obtain ⟨hcalls, hwritten, used', hsends⟩ := hrest.inactive rfl
    refine ⟨[f], pre, used ++ used', false, .cut _ hpre (by simpa using hfull), hcalls,
      hwritten, ?_, by simpa using fun h => absurd h (by simpa using hok)⟩
    rw [List.append_assoc, ← hsends]
    exact hused
  | true =>
    obtain rfl := hfull.mp rfl
    obtain ⟨called, out, used', ok', hserved, hcalls, hwritten, hsends, hok'⟩ := hrest
    refine ⟨f :: called, _ ++ out, used ++ used', ok', .answered ?_, ?_, ?_, ?_, ?_⟩
    · simpa [pending, Session.withWritten] using hserved
    · simpa using hcalls
    · simpa [Session.withWritten] using hwritten
    · rw [List.append_assoc, ← hsends]
      exact hused
    · simp [hok', hok.mp rfl]

theorem pass_spec (nc : NodeConnection) {handler : Handler}
    (hhandler : nc.handler = some handler) (st : State)
    (hopen : st.session.isOpen = true) :
    ∃ out, nc.pass st = some out ∧
      TurnOk (fun st => st.session.isOpen = true) (nc.Outcome handler)
        (fun st => (Peer.tokens st.session.sock.inbound).length) st out := by
  unfold pass Session.isActive
  cases hactive : st.session.active with
  | false =>
    exact ⟨_, rfl, outcome_of_pending_nil (by simp [pending, hactive]) rfl rfl rfl⟩
  | true =>
    obtain ⟨out, hturn, hspec⟩ := nc.turn_spec st hactive hopen
    rw [if_pos rfl]
    refine ⟨out, hturn, ?_⟩
    cases hnext : nextFrame bufferSize (Peer.tokens st.session.sock.inbound) with
    | none =>
      rw [hnext] at hspec
      obtain ⟨st', rfl, hcalls, hwritten, hsends⟩ := hspec
      exact outcome_of_pending_nil
        (by simp [pending, hactive, framesOf_eq_nil hnext, queriesOf]) hcalls hwritten hsends
    | some next =>
      obtain ⟨f, rest⟩ := next
      have hlen := nextFrame_length hnext
      rw [hnext] at hspec
      obtain ⟨inb, buffer, rfl, rfl, hbuffer⟩ := hspec
      by_cases htype : f.header.type = OracleMachineQuery.type
      · have hpending : pending st =
            f :: queriesOf (framesOf bufferSize (Peer.tokens inb)) := by
          simp [pending, hactive, framesOf_eq_cons hnext, queriesOf_cons_query htype]
        obtain ⟨hopen', hinb, hcomp⟩ :=
          outcome_process hhandler hactive hopen hbuffer htype hpending
        exact ⟨hopen', by simp only [hinb]; omega, hcomp⟩
      · have hproc : ∀ st, nc.process st f.header f.payload.length = st := by
          intro st
          unfold process
          rw [if_pos htype]
        rw [hproc]
        refine ⟨hopen, by simp only [Session.withInbound_inbound]; omega, fun st' hrest => ?_⟩
        simpa [Outcome, pending, hactive, framesOf_eq_cons hnext, queriesOf_cons_other htype]
          using hrest

/-- The handler's responses to a list of calls, from the `k`-th call on. -/
def responses (handler : Handler) : Nat → List Frame → List (List UInt8)
  | _, [] => []
  | k, f :: fs => handler k f.header f.payload :: responses handler (k + 1) fs

theorem Served.called_isPrefix {reply : Nat → Frame → List UInt8} {k : Nat}
    {queries called : List Frame} {out : List UInt8} {ok : Bool}
    (h : Served reply k queries called out ok) :
    called <+: queries ∧ (ok = true → called = queries) := by
  induction h with
  | nil k => simp
  | answered rest ih => exact ⟨List.cons_prefix_cons.mpr ⟨rfl, ih.1⟩, fun h => by rw [ih.2 h]⟩
  | cut fs hpre hne => simp

/-- A response that is not too long makes a well-formed reply frame. -/
theorem reply_eq_frame (nc : NodeConnection) {handler : Handler} {k : Nat} {f : Frame}
    (hne : handler k f.header f.payload ≠ [])
    (hsmall : (handler k f.header f.payload).length < 2 ^ 24 - 8) :
    ∃ r : Frame, r.payload = handler k f.header f.payload ∧
      r.header.type = OracleMachineReply.type ∧ nc.reply handler k f = r.bytes := by
  refine ⟨⟨nc.replyHeader k (handler k f.header f.payload), handler k f.header f.payload, ?_⟩,
    rfl, ?_, ?_⟩
  · exact RequestResponseHeader.sizeField_make _ _ _ (by omega)
  · exact RequestResponseHeader.type_make _ _ _ _
  · simp only [reply, if_neg hne, Frame.bytes]

/-- The bytes of a session are reply frames, one for each response that is not
empty, and only the last one may be cut. -/
theorem Served.replies {nc : NodeConnection} {handler : Handler} {k : Nat}
    {queries called : List Frame} {out : List UInt8} {ok : Bool}
    (h : Served (nc.reply handler) k queries called out ok)
    (hsmall : ∀ k header payload, (handler k header payload).length < 2 ^ 24 - 8) :
    ∃ replies : List Frame,
      replies.map Frame.payload = (responses handler k called).filter (· ≠ []) ∧
      (∀ r ∈ replies, r.header.type = OracleMachineReply.type) ∧
      (ok = true → out = replies.flatMap Frame.bytes) ∧
      (ok = false → ∃ full last part, replies = full ++ [last] ∧
        out = full.flatMap Frame.bytes ++ part ∧ part <+: last.bytes ∧ part ≠ last.bytes ∧
        (responses handler k called).getLast? = some last.payload) := by
  induction h with
  | nil k => exact ⟨[], by simp [responses]⟩
  | cut fs hpre hne =>
    rename_i k f out
    have hresponse : handler k f.header f.payload ≠ [] := by
      intro h
      simp only [reply, if_pos h, List.prefix_nil] at hpre hne
      exact hne hpre
    obtain ⟨r, hpayload, htype, hreply⟩ := nc.reply_eq_frame hresponse (hsmall _ _ _)
    rw [hreply] at hpre hne
    refine ⟨[r], ?_, ?_, ?_, ?_⟩
    · simp [responses, hpayload, hresponse]
    · simpa using htype
    · simp
    · exact fun _ => ⟨[], r, out, rfl, rfl, hpre, hne, by simp [responses, hpayload]⟩
  | answered rest ih =>
    rename_i k f fs called out ok
    obtain ⟨replies, hmap, htypes, hall, hcut⟩ := ih
    obtain ⟨first, hfirst, hftypes, hreply⟩ : ∃ first : List Frame,
        first.map Frame.payload = [handler k f.header f.payload].filter (· ≠ []) ∧
        (∀ r ∈ first, r.header.type = OracleMachineReply.type) ∧
        nc.reply handler k f = first.flatMap Frame.bytes := by
      by_cases hresponse : handler k f.header f.payload = []
      · exact ⟨[], by simp [hresponse], by simp, by simp [reply, hresponse]⟩
      · obtain ⟨r, hpayload, htype, hreply⟩ := nc.reply_eq_frame hresponse (hsmall _ _ _)
        exact ⟨[r], by simp [hpayload, hresponse], by simpa using htype, by simpa using hreply⟩
    refine ⟨first ++ replies, ?_, ?_, ?_, ?_⟩
    · rw [List.map_append, hfirst, hmap, ← List.filter_append]
      rfl
    · intro r hr
      rcases List.mem_append.mp hr with hr | hr
      · exact hftypes r hr
      · exact htypes r hr
    · intro hok
      rw [hreply, hall hok, List.flatMap_append]
    · intro hok
      obtain ⟨full, last, part, rfl, rfl, hpre, hne, hlast⟩ := hcut hok
      refine ⟨first ++ full, last, part, by simp, ?_, hpre, hne, ?_⟩
      · rw [hreply, List.flatMap_append, List.append_assoc]
      · simp [responses, List.getLast?_cons, hlast]

/-- One reply for each query of the stream, in order.  The handler is called
once for every query frame in front of the first invalid point of the stream,
on the frame's own header and payload, unless a send fails before; what is
written are the reply frames of the calls, and after a failed send nothing
more is called or written.  `used` are the outcomes of the `send` calls that
were made. -/
theorem handleSession_answers (nc : NodeConnection) (handler : Handler)
    (hhandler : nc.handler = some handler)
    (hsmall : ∀ k header payload, (handler k header payload).length < 2 ^ 24 - 8)
    (inbound : List Inbound) (sends : List (Option Nat)) :
    ∃ st used called replies,
      nc.handleSession (Session.ofSocket ⟨inbound, sends, []⟩) = some st ∧
      sends = used ++ st.session.sock.sends ∧
      called <+: queriesOf (framesOf bufferSize (Peer.tokens inbound)) ∧
      st.calls = called.map (fun f => (f.header, f.payload)) ∧
      replies.map Frame.payload = (responses handler 0 called).filter (· ≠ []) ∧
      (∀ r ∈ replies, r.header.type = OracleMachineReply.type) ∧
      st.session.sock.written <+: replies.flatMap Frame.bytes ∧
      (none ∉ used →
        called = queriesOf (framesOf bufferSize (Peer.tokens inbound)) ∧
        st.session.sock.written = replies.flatMap Frame.bytes) ∧
      (none ∈ used → ∃ full last part, replies = full ++ [last] ∧
        st.session.sock.written = full.flatMap Frame.bytes ++ part ∧
        part <+: last.bytes ∧ part ≠ last.bytes ∧
        (responses handler 0 called).getLast? = some last.payload) := by
  obtain ⟨st, hloop, called, out, used, ok, hserved, hcalls, hwritten, hsends, hok⟩ :=
    run_spec (fun st : State => (Peer.tokens st.session.sock.inbound).length)
      (nc.pass_spec hhandler) ((Peer.tokens inbound).length + 1)
      { session := Session.ofSocket ⟨inbound, sends, []⟩,
        buffer := List.replicate bufferSize 0, calls := [] } rfl (Nat.lt_succ_self _)
  obtain ⟨hstart, hcalled⟩ := hserved.called_isPrefix
  obtain ⟨replies, hmap, htypes, hall, hcut⟩ := hserved.replies hsmall
  obtain rfl : out = st.session.sock.written := by
    simpa [Session.ofSocket] using hwritten.symm
  refine ⟨st, used, called, replies, hloop, hsends, hstart, by simpa using hcalls, hmap,
    htypes, ?_, ?_, ?_⟩
  · cases ok with
    | true => exact ⟨[], by rw [List.append_nil, hall rfl]⟩
    | false =>
      obtain ⟨full, last, part, rfl, hout, hpre, -, -⟩ := hcut rfl
      rw [hout, List.flatMap_append]
      exact (List.prefix_append_right_inj _).mpr (by simpa using hpre)
  · intro hnone
    exact ⟨hcalled (hok.mpr hnone), hall (hok.mpr hnone)⟩
  · intro hnone
    apply hcut
    cases ok with
    | true => exact absurd hnone (hok.mp rfl)
    | false => rfl

/-- A connection whose handler answers one byte, and a node that sends one
empty query in two chunks. -/
theorem handleSession_answers_two_chunks :
    ∃ st called,
      NodeConnection.handleSession ⟨Core.sample, some fun _ _ _ => [7], fun _ => 0⟩
        (Session.ofSocket ⟨[.data 8 [0], .data 0 [190, 0, 0, 0, 0]], [some 3], []⟩) = some st ∧
      called <+: queriesOf (framesOf bufferSize
        (Peer.tokens [.data 8 [0], .data 0 [190, 0, 0, 0, 0]])) ∧
      st.calls = called.map (fun f => (f.header, f.payload)) := by
  obtain ⟨st, used, called, replies, hrun, -, hstart, hcalls, -⟩ :=
    handleSession_answers ⟨Core.sample, some fun _ _ _ => [7], fun _ => 0⟩ (fun _ _ _ => [7])
      rfl (by intros; decide) [.data 8 [0], .data 0 [190, 0, 0, 0, 0]] [some 3]
  exact ⟨st, called, hrun, hstart, hcalls⟩

end NodeConnection

end OracleMachine.Node
