import OracleMachine.Logs.Serve
import OracleMachine.Node.AtMostOnce
import OracleMachine.Node.InterfaceClient
import OracleMachine.Node.NodeConnection
import OracleMachine.Node.RequestHandler
import OracleMachine.Services.BaseOracleService

/-!
# The way of a query and of its reply through the OM node

A query travels from a Qubic node over `NodeConnection` and `RequestHandler` to the
`InterfaceClient` of its interface, and from there to the oracle service.  The reply of
the service comes back the same way, but it is taken apart and put together again: the
client leaves the header out of its buffer, the handler copies the fields of the reply
structure, and the connection makes a new header.

* `HandsOver`: the service gets the frame of the node.
* `RelaysReply`: the node gets the id, the flags and the payload of the service, in a
  frame of the same length.
* `EncodersAgree`: the services in C++ and in Python write the same frames.
-/

namespace OracleMachine.Node.Relay

open Lib.Bytes Lib.Transition Network Network.Wire Services
open Lib.TimedMap (Clock)
open Logs (zeros)
open Logs.Serve (LogServer)
open RequestHandler (Call State step afterQuery makeResponse replyOf replyPayload)
open Retries (Client Conditions IsReply QueryData Reaches Turn maxSendRetries
  processQueryRequest resize)

/-! ## The frame of a service -/

/-- The reply structure of `buildReplyPacket`. -/
def serviceReply (svc : BaseOracleService) (k : Nat) (query : QueryPacket) (errorFlags : UInt16) :
    OracleMachineReply where
  oracleQueryId := query.query.oracleQueryId
  oracleMachineErrorFlags := errorFlags
  padding0 := (svc.padding k).1
  padding1 := (svc.padding k).2

/-- The payload is cut or filled up with zeros, as `resize` does it. -/
theorem buildReplyPacket_eq (svc : BaseOracleService) (k : Nat) (query : QueryPacket)
    (errorFlags : UInt16) (payload : List UInt8) :
    svc.buildReplyPacket k query errorFlags payload =
      (RequestResponseHeader.make svc.core svc.replyPacketSize OracleMachineReply.type 0).bytes ++
        ((serviceReply svc k query errorFlags).toBytes ++
          resize payload svc.interfaceReplySize) := by
  have htake : payload.take (min payload.length svc.interfaceReplySize) =
      payload.take svc.interfaceReplySize := by
    rw [List.take_eq_take_iff]
    omega
  have hlength : svc.interfaceReplySize - (payload.take svc.interfaceReplySize).length =
      svc.interfaceReplySize - payload.length := by
    rw [List.length_take]
    omega
  simp only [BaseOracleService.buildReplyPacket, htake, hlength, resize, serviceReply,
    List.append_assoc]

/-- The packet is a frame. -/
def serviceFrame (svc : BaseOracleService) (k : Nat) (query : QueryPacket) (errorFlags : UInt16)
    (payload : List UInt8) : Frame where
  header := RequestResponseHeader.make svc.core svc.replyPacketSize OracleMachineReply.type 0
  payload := (serviceReply svc k query errorFlags).toBytes ++ resize payload svc.interfaceReplySize
  sizeField_eq := by
    have hpacket : svc.replyPacketSize = 24 + svc.interfaceReplySize := rfl
    rw [hpacket, RequestResponseHeader.sizeField_make _ _ _ svc.replySize_lt, List.length_append,
      OracleMachineReply.length_toBytes, Retries.length_resize]
    omega

theorem bytes_serviceFrame (svc : BaseOracleService) (k : Nat) (query : QueryPacket)
    (errorFlags : UInt16) (payload : List UInt8) :
    (serviceFrame svc k query errorFlags payload).bytes =
      svc.buildReplyPacket k query errorFlags payload :=
  (buildReplyPacket_eq svc k query errorFlags payload).symm

/-! ## The handler -/

/-- A call that hears from its client, and later stores the reply, returns the fields of the
reply under the id of its query.  Other calls may make steps in between. -/
theorem response_of_store {core : Core} {clock : Clock} {config : OracleCache.Config}
    {clients : UInt32 → Bool} {s₁ s₂ s₃ s₄ : State} {i : Nat} {call : Call}
    {replyFullData response : List UInt8}
    (hanswer : step core clock config clients s₁ (.answer i (some replyFullData)) = some s₂)
    (hsame : s₃.calls[i]? = s₂.calls[i]?)
    (hstore : step core clock config clients s₃ (.store i) = some s₄)
    (hcall : s₄.calls[i]? = some call) (hreturned : call.phase = .returned response) :
    ∃ query errorFlags payload,
      afterQuery core query (some replyFullData) = .storing errorFlags payload ∧
      response = makeResponse query.oracleQueryId errorFlags payload := by
  simp only [step, Option.bind_eq_some_iff] at hanswer hstore
  obtain ⟨asking, hasking, hanswer⟩ := hanswer
  obtain ⟨storing, hstoring, hstore⟩ := hstore
  have hi : i < s₁.calls.length := (List.getElem?_eq_some_iff.mp hasking).1
  have hi' : i < s₃.calls.length := (List.getElem?_eq_some_iff.mp hstoring).1
  split at hanswer
  · obtain rfl := Option.some.inj hanswer
    rw [hstoring, RequestHandler.answerStep, List.getElem?_set_self hi] at hsame
    split at hstore
    · rename_i errorFlags payload hphase
      obtain rfl := Option.some.inj hstore
      rw [RequestHandler.storeStep, List.getElem?_set_self hi'] at hcall
      obtain rfl := Option.some.inj hcall
      obtain rfl := Option.some.inj hsame
      exact ⟨_, errorFlags, payload, hphase, (RequestHandler.Phase.returned.inj hreturned).symm⟩
    · simp at hstore
  · simp at hanswer

/-- A reply that the handler stores has the id of the query, and the handler takes its
fields. -/
theorem fields_of_storing {core : Core} {query : OracleMachineQuery}
    {replyFullData : List UInt8} {reply : OracleMachineReply} {data payload : List UInt8}
    {errorFlags : UInt16} (hreplyData : replyFullData.drop 8 = reply.toBytes ++ data)
    (h : afterQuery core query (some replyFullData) = .storing errorFlags payload) :
    query.oracleQueryId = reply.oracleQueryId ∧ errorFlags = reply.oracleMachineErrorFlags ∧
      payload = data := by
  have hreply : replyOf replyFullData = reply := by
    rw [replyOf, slice, RequestResponseHeader.sizeOf, OracleMachineReply.sizeOf, hreplyData,
      List.take_left' (OracleMachineReply.length_toBytes reply)]
    have hbytes := OracleMachineReply.ofBytes_toBytes_append reply []
    rwa [List.append_nil] at hbytes
  have hdata : replyPayload replyFullData = data := by
    rw [replyPayload, RequestResponseHeader.sizeOf, OracleMachineReply.sizeOf,
      ← List.drop_drop, hreplyData, List.drop_left' (OracleMachineReply.length_toBytes reply)]
  rw [afterQuery, hreply, hdata] at h
  by_cases hsize : replyFullData.length <
      OracleMachineReply.sizeOf + RequestResponseHeader.sizeOf
  · simp [if_pos hsize] at h
  · rw [if_neg hsize] at h
    by_cases hid : reply.oracleQueryId ≠ query.oracleQueryId
    · simp [if_pos hid] at h
    · rw [if_neg hid] at h
      obtain ⟨rfl, rfl⟩ := RequestHandler.Phase.storing.inj h
      exact ⟨(not_not.mp hid).symm, rfl, rfl⟩

/-! ## The connection to the node -/

/-- A response that is sent is a frame behind what was written before. -/
theorem sendResponseToNode_frame {nc : NodeConnection} {session session' : Session Peer}
    {k : Nat} {response : List UInt8} (hsize : 8 + response.length < 2 ^ 24)
    (hne : response ≠ [])
    (h : nc.sendResponseToNode session OracleMachineReply.type response (nc.dejavu k) =
      (true, session')) :
    ∃ frame : Frame, session'.sock.written = session.sock.written ++ frame.bytes ∧
      frame.header.type = OracleMachineReply.type ∧ frame.payload = response := by
  have husable : session.active = true ∧ session.isOpen = true := by
    cases hsend : session.sendData (nc.replyHeader k response).bytes with
    | mk ok next =>
    rw [NodeConnection.replyHeader] at hsend
    rw [NodeConnection.sendResponseToNode, RequestResponseHeader.sizeOf, hsend] at h
    cases ok with
    | false => simp at h
    | true =>
      obtain ⟨hactive, hopen, -⟩ := Session.usable_of_sendData hsend
      exact ⟨hactive, hopen⟩
  obtain ⟨ok, used, sends, pre, hsend, -, -, -, hfull⟩ :=
    nc.sendResponseToNode_spec session k response husable.1 husable.2 hne
  rw [hsend] at h
  obtain ⟨rfl, rfl⟩ := Prod.mk.inj h
  refine ⟨⟨nc.replyHeader k response, response, ?_⟩, ?_, ?_, rfl⟩
  · exact RequestResponseHeader.sizeField_make _ _ _ hsize
  · show session.sock.written ++ pre = _
    rw [hfull.mp rfl]
    rfl
  · exact RequestResponseHeader.type_make _ _ _ _

/-! ## The whole way -/

/-- What a client does with the bytes that it is asked with: in every attempt it puts a prefix
of `frame` on the connection, in one whose `sendData` succeeds the whole of it, and an attempt
of this kind is made whenever the environment has one for a client that retries. -/
def Puts (core : Core) (data : QueryData) (frame : List UInt8) : Prop :=
  ∀ (σ : Type) [Socket σ] (client : Client (Tap σ)) (envs : Nat → Conditions σ),
    let out := processQueryRequest core client data (fun k => (envs k).tap)
    (∀ turn ∈ out.turns, turn.put <+: frame ∧
      (turn.put = frame ↔ turn.rc = some 1 ∨ turn.rc = some (-1))) ∧
    ((∃ turn ∈ out.turns, turn.put = frame) ↔
      ∃ k ≤ maxSendRetries, Reaches core frame client.session (fun k => (envs k).tap) k
        fun _ => True)

/-- A client puts the bytes that it is asked with on the connection. -/
theorem puts_bytes (core : Core) (data : QueryData) : Puts core data data.bytes := by
  intro σ _ client envs
  have hhistory := Retries.history_attemptLoop core data.bytes_ne (maxSendRetries + 1) envs
    client.sound rfl
  have hturn := Retries.exists_turn_iff core data.bytes_ne (maxSendRetries + 1) envs client.sound
    Retries.emptyResult (fun _ => True) rfl
  simp only [and_true, Nat.lt_succ_iff] at hturn
  exact ⟨fun turn hmem => ⟨hhistory.put_part turn hmem,
    hhistory.put_iff data.bytes_ne turn hmem⟩, hturn⟩

/-- The service gets the frame of the node.  A query with room for its structure goes to the
lookup.  On a miss with a client for its interface, the call asks this client, and the client
puts the frame of the node on its connection. -/
def HandsOver (query : Frame) : Prop :=
  RequestHandler.firstPhase query.header query.payload = .lookup ∧
  ∀ (core : Core) (clock : Clock) (config : OracleCache.Config) (clients : UInt32 → Bool)
      (s : State) (i : Nat) (call : Call),
    s.calls[i]? = some call → call.phase = .lookup →
    call.header = query.header → call.payload = query.payload →
    (OracleCache.lookup clock config s.cache call.query).2 = none →
    clients call.query.oracleInterfaceIndex = true →
    ∃ s' call' request, step core clock config clients s (.lookup i) = some s' ∧
      s'.calls[i]? = some call' ∧ call'.phase = .asking request ∧
      request.interfaceIndex = call.query.oracleInterfaceIndex ∧
      ∃ data : QueryData, data.bytes = request.queryData ∧ Puts core data query.bytes

theorem handsOver {query : Frame} (htype : query.header.type = OracleMachineQuery.type)
    (hlength : OracleMachineQuery.sizeOf ≤ query.payload.length) : HandsOver query := by
  refine ⟨?_, ?_⟩
  · rw [RequestHandler.firstPhase, if_neg (not_not_intro htype), if_neg (by omega)]
  · intro core clock config clients s i call hcall hphase hheader hpayload hmiss hclient
    have hi : i < s.calls.length := (List.getElem?_eq_some_iff.mp hcall).1
    have hquery : call.completePacket = query.bytes := by
      rw [Call.completePacket, hheader, hpayload, Frame.bytes]
    simp only [step, hcall, hphase, Option.bind_some, RequestHandler.lookupStep,
      RequestHandler.afterLookup, hmiss, if_pos hclient]
    exact ⟨_, _, call.request, rfl, List.getElem?_set_self hi, rfl, rfl, .ofFrame query,
      hquery.symm, puts_bytes core (.ofFrame query)⟩

/-- A client that has sent its query and received a frame with a payload is successful, and
its result holds the payload. -/
theorem result_of_got {σ : Type} [Socket σ] {core : Core} {client : Client (Tap σ)}
    {query : QueryData} {envs : Nat → Conditions σ} {turn : Turn (Tap σ)} {frame : Frame}
    (hturn : turn ∈ (processQueryRequest core client query (fun k => (envs k).tap)).turns)
    (hput : turn.put = query.bytes) (hgot : turn.got = frame.bytes) (hne : frame.payload ≠ []) :
    let out := processQueryRequest core client query (fun k => (envs k).tap)
    out.returned = true ∧ out.result.valid = true ∧ out.result.replyData.drop 8 = frame.payload := by
  have honce := Retries.atMostOnce core client query envs
  have hreply : IsReply core frame.header frame.payload turn.got := ⟨hgot, frame.size_eq core⟩
  have hrc := honce.answers turn hturn hput frame.header frame.payload hreply hne
  obtain ⟨-, header, payload, hreply', hresult⟩ := honce.answered turn hturn hrc
  have hpayload : frame.payload = payload := by
    rw [hgot, Frame.bytes] at hreply'
    exact (Retries.isReply_header hreply').2.symm
  refine ⟨honce.returned.mpr ⟨turn, hturn, hrc⟩, by rw [hresult], ?_⟩
  rw [hresult, hpayload, List.drop_left' List.length_replicate]

/-- What the node gets for a reply of the service.  `sent` is the packet of the service, and
`received` a frame with its payload and any header.  A client that receives this frame behind
its query is successful.  When the handler has stored what the client delivers and the
connection has written the response, then it has written a frame of the same length with the
id, the flags, no padding and the payload of the service, cut or filled up to the size of a
reply. -/
def RelaysReply (svc : BaseOracleService) (k : Nat) (packet : QueryPacket) (errorFlags : UInt16)
    (payload : List UInt8) : Prop :=
  ∃ sent : Frame, sent.bytes = svc.buildReplyPacket k packet errorFlags payload ∧
  ∀ (received : Frame), received.payload = sent.payload →
  ∀ (core : Core) (σ : Type) [Socket σ] (client : Client (Tap σ)) (query : QueryData)
      (envs : Nat → Conditions σ) (turn : Turn (Tap σ)),
    let out := processQueryRequest core client query (fun k => (envs k).tap)
    turn ∈ out.turns → turn.put = query.bytes → turn.got = received.bytes →
  (out.returned = true ∧ out.result.valid = true) ∧
  ∀ (clock : Clock) (config : OracleCache.Config) (clients : UInt32 → Bool)
      (s₁ s₂ s₃ s₄ : State) (i : Nat) (call : Call) (response : List UInt8),
    step core clock config clients s₁ (.answer i (some out.result.replyData)) = some s₂ →
    s₃.calls[i]? = s₂.calls[i]? →
    step core clock config clients s₃ (.store i) = some s₄ →
    s₄.calls[i]? = some call → call.phase = .returned response →
  ∀ (nc : NodeConnection) (j : Nat) (nodeSession nodeSession' : Session Peer),
    nc.sendResponseToNode nodeSession OracleMachineReply.type response (nc.dejavu j) =
      (true, nodeSession') →
  ∃ written : Frame,
    nodeSession'.sock.written = nodeSession.sock.written ++ written.bytes ∧
    written.bytes.length = sent.bytes.length ∧
    written.header.type = OracleMachineReply.type ∧
    OracleMachineReply.ofBytes written.payload =
      { oracleQueryId := packet.query.oracleQueryId, oracleMachineErrorFlags := errorFlags,
        padding0 := 0, padding1 := 0 } ∧
    written.payload.drop OracleMachineReply.sizeOf = resize payload svc.interfaceReplySize

theorem relaysReply (svc : BaseOracleService) (k : Nat) (packet : QueryPacket)
    (errorFlags : UInt16) (payload : List UInt8) :
    RelaysReply svc k packet errorFlags payload := by
  refine ⟨serviceFrame svc k packet errorFlags payload,
    bytes_serviceFrame svc k packet errorFlags payload, ?_⟩
  intro received hreceived core σ _ client query envs turn out hturn hput hgot
  have hne : received.payload ≠ [] := by
    rw [← List.length_pos_iff, hreceived, serviceFrame, List.length_append,
      OracleMachineReply.length_toBytes]
    omega
  obtain ⟨hreturned, hvalid, hdata⟩ := result_of_got hturn hput hgot hne
  refine ⟨⟨hreturned, hvalid⟩, ?_⟩
  intro clock config clients s₁ s₂ s₃ s₄ i call response hanswer hsame hstore hcall hresponse
    nc j nodeSession nodeSession' hnode
  obtain ⟨asked, flags, data, hstoring, rfl⟩ :=
    response_of_store hanswer hsame hstore hcall hresponse
  obtain ⟨hid, hflags, hdata⟩ := fields_of_storing (hdata.trans hreceived) hstoring
  rw [hid, hflags, hdata] at hnode
  have hcarries := RequestHandler.carries_makeResponse packet.query.oracleQueryId errorFlags
    (resize payload svc.interfaceReplySize)
  have hlength := hcarries.1
  rw [Retries.length_resize] at hlength
  obtain ⟨written, hwritten, htype, hpayload⟩ := sendResponseToNode_frame
    (by
      show 8 + (makeResponse packet.query.oracleQueryId errorFlags
        (resize payload svc.interfaceReplySize)).length < 2 ^ 24
      have hsize := svc.replySize_lt
      rw [hlength, OracleMachineReply.sizeOf]
      omega) hcarries.ne_nil hnode
  refine ⟨written, hwritten, ?_, htype, ?_, ?_⟩
  · rw [Frame.length_bytes, Frame.length_bytes, hpayload, serviceFrame, List.length_append,
      OracleMachineReply.length_toBytes, Retries.length_resize]
    exact congrArg (8 + ·) hlength
  · rw [hpayload]
    exact hcarries.2.1
  · rw [hpayload]
    exact hcarries.2.2

/-- For a payload of full size, the packet of a Python service is that of a C++ service with
replies of this size, but for the six reserved bytes of the reply structure. -/
def EncodersAgree (server : LogServer) (svc : BaseOracleService) : Prop :=
  ∀ (k : Nat) (packet : QueryPacket) (errorFlags : UInt16) (payload : List UInt8),
    payload.length = server.replySize →
    let python := server.packet packet.query.oracleQueryId.toNat errorFlags payload
    let cpp := svc.buildReplyPacket k packet errorFlags payload
    python.length = cpp.length ∧ python.take 18 = cpp.take 18 ∧ python.drop 24 = cpp.drop 24 ∧
      (svc.padding k = (0, 0) → python = cpp)

/-- The bytes in front of the padding. -/
def front (size queryId : Nat) (errorFlags : UInt16) : List UInt8 :=
  leBytes 3 size ++ [OracleMachineReply.type] ++ zeros 4 ++ leBytes 8 queryId ++
    leBytes 2 errorFlags.toNat

theorem length_front (size queryId : Nat) (errorFlags : UInt16) :
    (front size queryId errorFlags).length = 18 := by
  simp [front]

theorem packet_eq_front (server : LogServer) (queryId : Nat) (errorFlags : UInt16)
    (payload : List UInt8) :
    server.packet queryId errorFlags payload =
      front (24 + server.replySize) queryId errorFlags ++ (zeros 6 ++ payload) := by
  simp only [LogServer.packet, front, List.append_assoc]
  rfl

theorem buildReplyPacket_eq_front {svc : BaseOracleService} (k : Nat) (packet : QueryPacket)
    (errorFlags : UInt16) {payload : List UInt8}
    (hpayload : payload.length = svc.interfaceReplySize) :
    svc.buildReplyPacket k packet errorFlags payload =
      front (24 + svc.interfaceReplySize) packet.query.oracleQueryId.toNat errorFlags ++
        ((leBytes 2 (svc.padding k).1.toNat ++ leBytes 4 (svc.padding k).2.toNat) ++ payload) := by
  have hpacket : svc.replyPacketSize = 24 + svc.interfaceReplySize := rfl
  have hresize : resize payload svc.interfaceReplySize = payload := by
    rw [resize, ← hpayload, List.take_length, Nat.sub_self, List.replicate_zero,
      List.append_nil]
  have hdejavu : leBytes 4 (0 : UInt32).toNat = zeros 4 := rfl
  rw [buildReplyPacket_eq, hresize, hpacket]
  simp only [RequestResponseHeader.make, if_pos svc.replySize_lt, hdejavu, front, serviceReply,
    OracleMachineReply.toBytes, List.append_assoc, List.cons_append, List.nil_append]

theorem encodersAgree {server : LogServer} {svc : BaseOracleService}
    (h : svc.interfaceReplySize = server.replySize) : EncodersAgree server svc := by
  intro k packet errorFlags payload hpayload
  have hfront := length_front (24 + svc.interfaceReplySize) packet.query.oracleQueryId.toNat
    errorFlags
  simp only [packet_eq_front, buildReplyPacket_eq_front k packet errorFlags
    (hpayload.trans h.symm), ← h]
  refine ⟨?_, ?_, ?_, ?_⟩
  · simp only [List.length_append, Logs.length_zeros, length_leBytes]
  · rw [List.take_left' hfront, List.take_left' hfront]
  · rw [← List.append_assoc, ← List.append_assoc, List.drop_left', List.drop_left']
    · simp [hfront]
    · simp [hfront]
  · intro hpadding
    rw [hpadding]
    rfl

/-- Queries and replies pass the OM node: the service gets the frame of the node, the node
gets the reply of the service without its reserved bytes, and the services in C++ and in
Python encode a reply alike. -/
theorem transparent_relay :
    (∀ query : Frame, query.header.type = OracleMachineQuery.type →
      OracleMachineQuery.sizeOf ≤ query.payload.length → HandsOver query) ∧
    (∀ (svc : BaseOracleService) (k : Nat) (packet : QueryPacket) (errorFlags : UInt16)
      (payload : List UInt8), RelaysReply svc k packet errorFlags payload) ∧
    ∀ (server : LogServer) (svc : BaseOracleService),
      svc.interfaceReplySize = server.replySize → EncodersAgree server svc :=
  ⟨fun _ htype hlength => handsOver htype hlength,
    fun svc k packet errorFlags payload => relaysReply svc k packet errorFlags payload,
    fun _ _ h => encodersAgree h⟩

/-! A service that leaves its reserved bytes as they are. -/

/-- A service with replies of three bytes. -/
def paddedService : BaseOracleService where
  core := Core.sample
  interfaceQuerySize := 0
  interfaceReplySize := 3
  querySize_lt := by decide
  replySize_lt := by decide
  processInterfaceQuery := fun _ _ _ => (2, [42])
  padding := fun _ => (0xABCD, 7)

theorem sizeField_plainHeader :
    RequestResponseHeader.sizeField
      ⟨[24, 0, 0, 190, 0, 0, 0, 0], BaseOracleService.length_bareHeader⟩ = 24 := rfl

/-- A query with the id 5 for the interface 1. -/
def plainQuery : Frame where
  header := ⟨[24, 0, 0, 190, 0, 0, 0, 0], BaseOracleService.length_bareHeader⟩
  payload := [5, 0, 0, 0, 0, 0, 0, 0, 1, 0, 0, 0, 0, 0, 0, 0]
  sizeField_eq := sizeField_plainHeader

/-- A connection that takes the query in two pieces, and on which the reply of that service
arrives with its header in two pieces. -/
def paddedReplyArrives : Conditions Peer where
  connected := some
    { inbound := [.data 27 [0, 0], .data 191 [0, 0, 0, 0],
        .data 5 [0, 0, 0, 0, 0, 0, 0, 2, 0, 205, 171, 7, 0, 0, 0, 42, 0, 0]]
      sends := [some 9]
      written := [] }
  setTimeout := true
  beforeCheck := .nothing
  beforeSend := .nothing
  beforeHeader := .nothing
  beforePayload := .nothing
  afterReply := .nothing

/-- The outcome of a request with these bytes on this connection. -/
def paddedRequest (data : QueryData) : Retries.Outcome (Tap Peer) :=
  processQueryRequest Core.sample .init data fun _ => paddedReplyArrives.tap

/-- The one attempt sends the query and reads the packet of the service. -/
theorem paddedRequest_turns :
    (paddedRequest (.ofFrame plainQuery)).turns.map
        (fun turn => (turn.rc, turn.put, turn.got)) =
      [(some 1, plainQuery.bytes, paddedService.buildReplyPacket 0
        (BaseOracleService.packetOf plainQuery.header plainQuery.payload) 2 [42])] := by
  decide +kernel

/-- The call of the handler for the query, before its lookup. -/
def plainCall : Call where
  header := plainQuery.header
  payload := plainQuery.payload
  phase := .lookup
  exchange := none
  hitAt := none
  storedAt := none

/-- The handler with this call and a client for every interface. -/
def plainStep : State → RequestHandler.Label → Option State :=
  step Core.sample ⟨id, monotone_id⟩ {} fun _ => true

/-- The connection to the node that asked. -/
def plainConnection : NodeConnection where
  core := Core.sample
  handler := none
  dejavu := fun _ => 9

/-- The service gets the query of the node, and the node gets the reply of the service without
the reserved bytes, with its one byte filled up. -/
theorem transparent_relay_padded :
    (∃ turn ∈ (paddedRequest (.ofFrame plainQuery)).turns, turn.put = plainQuery.bytes) ∧
    ∃ written : Frame,
      (plainConnection.sendResponseToNode
        (Session.ofSocket { inbound := [], sends := [], written := [] })
        OracleMachineReply.type (makeResponse 5 2 [42, 0, 0]) 9).2.sock.written =
          written.bytes ∧
      written.bytes.length = 27 ∧
      OracleMachineReply.ofBytes written.payload = ⟨5, 2, 0, 0⟩ ∧
      written.payload.drop 16 = [42, 0, 0] := by
  obtain ⟨turn, hturn, hrecord⟩ := List.mem_map.mp
    (paddedRequest_turns ▸ List.mem_singleton_self _)
  simp only [Prod.mk.injEq] at hrecord
  obtain ⟨hrc, -, hgot⟩ := hrecord
  -- the handler asks its client with the bytes of the query
  obtain ⟨-, hasks⟩ := transparent_relay.1 plainQuery rfl (by decide)
  obtain ⟨s', call', request, hstep, hcall', hphase', -, data, hdata, hputs⟩ :=
    hasks Core.sample ⟨id, monotone_id⟩ {} (fun _ => true)
      { cache := OracleCache.new ⟨id, monotone_id⟩, calls := [plainCall] } 0 plainCall rfl rfl rfl
      rfl (by decide +kernel) rfl
  have hphases : (plainStep { cache := OracleCache.new ⟨id, monotone_id⟩, calls := [plainCall] }
      (.lookup 0)).map (fun s => s.calls[0]?.map Call.phase) =
        some (some (.asking plainCall.request)) := by decide +kernel
  rw [plainStep, hstep, Option.map_some, hcall', Option.map_some, hphase', Option.some.injEq,
    Option.some.injEq, RequestHandler.Phase.asking.injEq] at hphases
  have hframe : data = .ofFrame plainQuery := by
    obtain ⟨bytes, hne, hlt⟩ := data
    obtain rfl : bytes = plainQuery.bytes := by
      rw [show bytes = request.queryData from hdata, hphases]
      rfl
    rfl
  rw [hframe] at hputs
  have hput : turn.put = plainQuery.bytes :=
    ((hputs Peer .init fun _ => paddedReplyArrives).1 turn hturn).2.mpr (.inl hrc)
  refine ⟨⟨turn, hturn, hput⟩, ?_⟩
  -- the reply comes back through the handler
  obtain ⟨sent, hsent, hrelay⟩ := transparent_relay.2.1 paddedService 0
    (BaseOracleService.packetOf plainQuery.header plainQuery.payload) 2 [42]
  have hlength : sent.bytes.length = 27 := by
    rw [hsent]
    decide
  have hexec : (exec plainStep (RequestHandler.init ⟨id, monotone_id⟩)
      [.arrive plainQuery.header plainQuery.payload, .lookup 0,
        .answer 0 (some (paddedRequest (.ofFrame plainQuery)).result.replyData), .store 0]).map
        (fun s => s.calls[0]?.map Call.phase) =
      some (some (.returned (makeResponse 5 2 [42, 0, 0]))) := by
    decide +kernel
  obtain ⟨s₄, hsteps, hphase⟩ := Option.map_eq_some_iff.mp hexec
  obtain ⟨call, hcall, hreturned⟩ := Option.map_eq_some_iff.mp hphase
  simp only [exec, Option.bind_eq_some_iff, Option.some.injEq] at hsteps
  obtain ⟨-, -, s₁, -, s₂, hanswer, s₄', hstore, rfl⟩ := hsteps
  obtain ⟨-, hwrites⟩ := hrelay sent rfl Core.sample Peer .init (.ofFrame plainQuery)
    (fun _ => paddedReplyArrives) turn hturn hput (hgot.trans hsent.symm)
  obtain ⟨written, hwritten, hwritten_length, -, hfields, hpayload⟩ :=
    hwrites ⟨id, monotone_id⟩ {} (fun _ => true) s₁ s₂ s₂ s₄' 0 call _ hanswer rfl hstore hcall
      hreturned plainConnection 0 (Session.ofSocket { inbound := [], sends := [], written := [] })
      _ rfl
  exact ⟨written, hwritten, hwritten_length.trans hlength, hfields, hpayload⟩

end OracleMachine.Node.Relay
