import OracleMachine.Lib.Loop
import OracleMachine.Network.Framing

/-!
# The session loop of the C++ oracle services

`BaseOracleService::handleSession` serves one client.  It reads blocks of
`queryPacketSize` bytes and parses each block as one query packet.  The size
field of the header is never looked at, so the loop finds the frames of its
client only where they happen to fall on the blocks.

The work of a concrete service is a parameter: what `processInterfaceQuery`
makes of the `k`-th query of the session and of the zeroed reply buffer.  The
reserved bytes of a reply structure are not set by the code, so their values
are a parameter as well.

* `Parsed` is what a session does with the bytes it receives before the first
  timeout, and `pass_spec` ties one pass of the loop to it.
* `AnswersFrames` says that a session answers only whole frames of its client.
* `handleSession_isolates_iff` is the exact condition on the sent frames for
  that: every block that is taken for a query is one of them.

The counters of the class are left out: only `printStatistics` reads them.
-/

namespace OracleMachine.Services

open Lib.Bytes Lib.Loop Network Network.Wire Network.Framing

/-- `QueryPacket`. -/
structure QueryPacket where
  header : RequestResponseHeader
  query : OracleMachineQuery
  payload : List UInt8
  deriving DecidableEq

/-- `BaseOracleService`, with the work of the derived class.  Its packets have sizes that fit
into the size field of a header, so that they are also an `int` for the calls of a
session. -/
structure BaseOracleService where
  core : Core
  interfaceQuerySize : Nat
  interfaceReplySize : Nat
  querySize_lt : 24 + interfaceQuerySize < 2 ^ 24
  replySize_lt : 24 + interfaceReplySize < 2 ^ 24
  processInterfaceQuery : Nat → List UInt8 → List UInt8 → UInt16 × List UInt8
  padding : Nat → UInt16 × UInt32

namespace BaseOracleService

/-- The local state of `handleSession`.  `position` counts the bytes received,
and `parsed` records each parsed packet with the position of its block. -/
structure State where
  session : Session Peer
  position : Nat
  parsed : List (Nat × QueryPacket)
  deriving DecidableEq

/-- `_queryPacketSize`. -/
def queryPacketSize (svc : BaseOracleService) : Nat :=
  RequestResponseHeader.sizeOf + OracleMachineQuery.sizeOf + svc.interfaceQuerySize

/-- `_replyPacketSize`. -/
def replyPacketSize (svc : BaseOracleService) : Nat :=
  RequestResponseHeader.sizeOf + OracleMachineReply.sizeOf + svc.interfaceReplySize

/-- `BaseOracleService::parseQueryPacket`. -/
def parseQueryPacket (svc : BaseOracleService) (data : List UInt8) : Option QueryPacket :=
  if data.length < svc.queryPacketSize then none
  else
    match RequestResponseHeader.ofBytes? (slice data 0 RequestResponseHeader.sizeOf) with
    | none => none
    | some header =>
      if header.type ≠ OracleMachineQuery.type then none
      else
        let payload := data.drop (RequestResponseHeader.sizeOf + OracleMachineQuery.sizeOf)
        if payload.length ≠ svc.interfaceQuerySize then none
        else
          some
            { header
              query := OracleMachineQuery.ofBytes
                (slice data RequestResponseHeader.sizeOf OracleMachineQuery.sizeOf)
              payload }

/-- `BaseOracleService::processQuery`: the error flags and the reply payload. -/
def processQuery (svc : BaseOracleService) (k : Nat) (query : QueryPacket) :
    UInt16 × List UInt8 :=
  svc.processInterfaceQuery k query.payload (List.replicate svc.interfaceReplySize 0)

/-- `BaseOracleService::buildReplyPacket`.  A payload of the wrong size is cut
or filled up with the zeros of the packet. -/
def buildReplyPacket (svc : BaseOracleService) (k : Nat) (query : QueryPacket)
    (errorFlags : UInt16) (payload : List UInt8) : List UInt8 :=
  let header := RequestResponseHeader.make svc.core svc.replyPacketSize
    OracleMachineReply.type 0
  let reply : OracleMachineReply :=
    { oracleQueryId := query.query.oracleQueryId
      oracleMachineErrorFlags := errorFlags
      padding0 := (svc.padding k).1
      padding1 := (svc.padding k).2 }
  let copied := payload.take (min payload.length svc.interfaceReplySize)
  header.bytes ++ reply.toBytes ++ copied ++
    List.replicate (svc.interfaceReplySize - copied.length) 0

/-- The packet that answers the `k`-th query of a session. -/
def reply (svc : BaseOracleService) (k : Nat) (query : QueryPacket) : List UInt8 :=
  let (errorFlags, payload) := svc.processQuery k query
  svc.buildReplyPacket k query errorFlags payload

/-- The body of the session loop. -/
def turn (svc : BaseOracleService) (st : State) : Turn State :=
  match st.session.receiveExact svc.queryPacketSize with
  | (received, session) =>
    let st := { st with session, position := st.position + received.bytes.length }
    if received.ret ≤ 0 then .leave st
    -- incomplete packet
    else if received.ret ≠ svc.queryPacketSize then .leave st
    else
      match svc.parseQueryPacket received.bytes with
      | none => .again st
      | some query =>
        let k := st.parsed.length
        let st := { st with
          parsed := st.parsed ++ [(st.position - received.bytes.length, query)] }
        match st.session.sendData (svc.reply k query) with
        | (true, session) => .again { st with session }
        | (false, session) => .leave { st with session }

/-- One pass of the loop `while (session.isActive())`. -/
def pass (svc : BaseOracleService) (st : State) : Option (Turn State) :=
  some (if st.session.isActive then svc.turn st else .leave st)

/-- `BaseOracleService::handleSession`.  Every pass takes a block from the
stream, so the length of the stream is enough fuel. -/
def handleSession (svc : BaseOracleService) (session : Session Peer) : Option State :=
  run svc.pass ((Peer.tokens session.sock.inbound).length + 1)
    { session, position := 0, parsed := [] }

/-! ## Parsing and replying -/

theorem queryPacketSize_eq (svc : BaseOracleService) :
    svc.queryPacketSize = 24 + svc.interfaceQuerySize := rfl

theorem reply_ne_nil (svc : BaseOracleService) (k : Nat) (query : QueryPacket) :
    svc.reply k query ≠ [] := by
  intro h
  have hlen := congrArg List.length h
  simp only [reply, buildReplyPacket, List.length_append,
    OracleMachineReply.length_toBytes, List.length_nil] at hlen
  omega

/-- The packet of a block that consists of a header and a body. -/
def packetOf (header : RequestResponseHeader) (body : List UInt8) : QueryPacket where
  header := header
  query := OracleMachineQuery.ofBytes (slice body 0 OracleMachineQuery.sizeOf)
  payload := body.drop OracleMachineQuery.sizeOf

/-- A block of the right length is parsed by its parts, and only its type is
checked. -/
theorem parseQueryPacket_append (svc : BaseOracleService) (header : RequestResponseHeader)
    {body : List UInt8} (hlen : 8 + body.length = svc.queryPacketSize) :
    svc.parseQueryPacket (header.bytes ++ body) =
      if header.type = OracleMachineQuery.type then some (packetOf header body) else none := by
  have hheader : slice (header.bytes ++ body) 0 8 = header.bytes :=
    slice_append_left header.length_bytes
  have hquery : slice (header.bytes ++ body) 8 16 = slice body 0 16 := by
    rw [slice_append_right (by rw [header.length_bytes]), header.length_bytes]
  have hpayload : (header.bytes ++ body).drop (8 + 16) = body.drop 16 := by
    rw [← List.drop_drop, List.drop_left' header.length_bytes]
  have hsize : (body.drop 16).length = svc.interfaceQuerySize := by
    rw [queryPacketSize_eq] at hlen
    rw [List.length_drop]
    omega
  have hlong : ¬(header.bytes ++ body).length < svc.queryPacketSize := by
    rw [List.length_append, header.length_bytes]
    omega
  unfold parseQueryPacket
  simp only [RequestResponseHeader.sizeOf, OracleMachineQuery.sizeOf, if_neg hlong, hheader,
    hquery, hpayload, hsize, RequestResponseHeader.ofBytes?_eq_some header.length_bytes,
    ne_eq, not_true_eq_false, if_false, ite_not]
  rfl

/-- Every block of the right length consists of a header and a body. -/
theorem exists_header_body (svc : BaseOracleService) {block : List UInt8}
    (hlen : block.length = svc.queryPacketSize) :
    ∃ (header : RequestResponseHeader) (body : List UInt8), block = header.bytes ++ body ∧
      8 + body.length = svc.queryPacketSize ∧ header.type = block.getD 3 0 := by
  rw [queryPacketSize_eq] at hlen
  refine ⟨⟨block.take 8, by rw [List.length_take]; omega⟩, block.drop 8,
    (List.take_append_drop 8 block).symm, ?_, ?_⟩
  · rw [List.length_drop, queryPacketSize_eq]
    omega
  · simp [RequestResponseHeader.type, List.getD_eq_getElem?_getD]

/-! ## A whole session -/

/-- What a session does with the bytes `bs` that it still receives, at
position `pos` and with `k` queries behind it: it parses block after block,
answers what parses, and leaves when the bytes run out or a reply is cut.  `log`
are the packets with their positions, `out` is what is written, and `ok` says
that no reply was cut. -/
inductive Parsed (svc : BaseOracleService) :
    Nat → Nat → List UInt8 → List (Nat × QueryPacket) → List UInt8 → Bool → Prop where
  | short {k pos : Nat} {bs : List UInt8} (hlen : bs.length < svc.queryPacketSize) :
      Parsed svc k pos bs [] [] true
  | skipped {k pos : Nat} {block bs out : List UInt8} {log : List (Nat × QueryPacket)}
      {ok : Bool} (hlen : block.length = svc.queryPacketSize)
      (hparse : svc.parseQueryPacket block = none)
      (rest : Parsed svc k (pos + svc.queryPacketSize) bs log out ok) :
      Parsed svc k pos (block ++ bs) log out ok
  | answered {k pos : Nat} {block bs out : List UInt8} {log : List (Nat × QueryPacket)}
      {ok : Bool} {query : QueryPacket} (hlen : block.length = svc.queryPacketSize)
      (hparse : svc.parseQueryPacket block = some query)
      (rest : Parsed svc (k + 1) (pos + svc.queryPacketSize) bs log out ok) :
      Parsed svc k pos (block ++ bs) ((pos, query) :: log) (svc.reply k query ++ out) ok
  | cut {k pos : Nat} {block : List UInt8} (bs : List UInt8) {out : List UInt8}
      {query : QueryPacket} (hlen : block.length = svc.queryPacketSize)
      (hparse : svc.parseQueryPacket block = some query)
      (hpre : out <+: svc.reply k query) (hne : out ≠ svc.reply k query) :
      Parsed svc k pos (block ++ bs) [(pos, query)] out false

/-- The bytes that the loop still receives before a timeout. -/
def pending (st : State) : List UInt8 :=
  if st.session.active then burst (Peer.tokens st.session.sock.inbound) else []

/-- What the loop has done between two states. -/
def Outcome (svc : BaseOracleService) (st st' : State) : Prop :=
  ∃ log out used ok,
    Parsed svc st.parsed.length st.position (pending st) log out ok ∧
    st'.parsed = st.parsed ++ log ∧
    st'.session.sock.written = st.session.sock.written ++ out ∧
    st.session.sock.sends = used ++ st'.session.sock.sends ∧
    (ok = true ↔ none ∉ used)

theorem outcome_of_short {svc : BaseOracleService} {st st' : State}
    (hlen : (pending st).length < svc.queryPacketSize) (hparsed : st'.parsed = st.parsed)
    (hwritten : st'.session.sock.written = st.session.sock.written)
    (hsends : st'.session.sock.sends = st.session.sock.sends) : svc.Outcome st st' :=
  ⟨[], [], [], true, .short hlen, by simp [hparsed], by simp [hwritten], by simp [hsends],
    by simp⟩

/-- The loop body on a complete block. -/
theorem turn_full (svc : BaseOracleService) {st : State} {block : List UInt8}
    {rest : List (Option UInt8)} (hactive : st.session.active = true)
    (hopen : st.session.isOpen = true)
    (hread : readExact svc.queryPacketSize (Peer.tokens st.session.sock.inbound) =
      .full block rest) :
    TurnOk (fun st => st.session.isOpen = true) svc.Outcome
      (fun st => (Peer.tokens st.session.sock.inbound).length) st (svc.turn st) := by
  obtain ⟨hlen, hts⟩ := readExact_eq_full hread
  have hpos : 0 < svc.queryPacketSize := by rw [queryPacketSize_eq]; omega
  have hans := st.session.receiveExact_peer svc.queryPacketSize hactive hopen
  rw [hread] at hans
  obtain ⟨inb, hout, rfl⟩ := hans
  have hshorter : (Peer.tokens inb).length < (Peer.tokens st.session.sock.inbound).length := by
    rw [hts, List.length_append, List.length_map]
    omega
  have hpending : pending st = block ++ burst (Peer.tokens inb) := by
    rw [pending, if_pos hactive, hts, burst_append]
  unfold turn
  rw [hout]
  simp only [Received.ret, Received.bytes, hlen, ne_eq, not_true_eq_false, if_false]
  rw [if_neg (by omega)]
  cases hparse : svc.parseQueryPacket block with
  | none =>
    refine ⟨hopen, hshorter, fun st' h => ?_⟩
    obtain ⟨log, out, used, ok, hserved, hspec⟩ := h
    refine ⟨log, out, used, ok, ?_, hspec⟩
    rw [hpending]
    refine .skipped hlen hparse ?_
    simpa [pending, hactive] using hserved
  | some query =>
    obtain ⟨ok, used, sends, pre, hsend, hused, hok, hpre, hfull⟩ :=
      (st.session.withInbound inb).sendData_peer (svc.reply st.parsed.length query) hactive
        hopen (svc.reply_ne_nil _ _)
    simp only [hsend, Nat.add_sub_cancel]
    cases ok with
    | false =>
      refine ⟨[(st.position, query)], pre, used, false, ?_, rfl, rfl, hused, hok⟩
      rw [hpending]
      exact .cut _ hlen hparse hpre (by simpa using hfull)
    | true =>
      obtain rfl := hfull.mp rfl
      refine ⟨hopen, hshorter, fun st' h => ?_⟩
      obtain ⟨log, out, used', ok', hserved, hparsed, hwritten, hsends, hok'⟩ := h
      refine ⟨(st.position, query) :: log, svc.reply st.parsed.length query ++ out,
        used ++ used', ok', ?_, ?_, ?_, ?_, ?_⟩
      · rw [hpending]
        refine .answered hlen hparse ?_
        simpa [pending, Session.withWritten] using hserved
      · simpa using hparsed
      · simpa [Session.withWritten] using hwritten
      · rw [List.append_assoc, ← hsends]
        exact hused
      · simp [hok', hok.mp rfl]

/-- The loop body when the stream has no further block. -/
theorem turn_short (svc : BaseOracleService) {st : State}
    (hactive : st.session.active = true) (hopen : st.session.isOpen = true)
    (hread : ∀ block rest,
      readExact svc.queryPacketSize (Peer.tokens st.session.sock.inbound) ≠ .full block rest) :
    ∃ st', svc.turn st = .leave st' ∧ svc.Outcome st st' := by
  have hlt := length_bytes_readExact_lt hread
  have hans := st.session.receiveExact_peer svc.queryPacketSize hactive hopen
  have hburst : (pending st).length < svc.queryPacketSize := by
    rw [pending, if_pos hactive]
    exact length_burst_lt hread
  unfold turn
  generalize st.session.receiveExact svc.queryPacketSize = out at hans ⊢
  obtain ⟨received, session⟩ := out
  have hbytes := Session.bytes_of_answers hans
  have hsock := Session.sock_of_answers hans
  have hret := received.ret_le
  simp only at hbytes hsock ⊢
  have hne : received.ret ≠ svc.queryPacketSize := by
    rw [hbytes] at hret
    omega
  refine ⟨{ st with session, position := st.position + received.bytes.length }, ?_,
    outcome_of_short hburst rfl hsock.1 hsock.2⟩
  rw [if_pos hne, ite_self]

theorem pass_spec (svc : BaseOracleService) (st : State) (hopen : st.session.isOpen = true) :
    ∃ out, svc.pass st = some out ∧
      TurnOk (fun st => st.session.isOpen = true) svc.Outcome
        (fun st => (Peer.tokens st.session.sock.inbound).length) st out := by
  refine ⟨_, rfl, ?_⟩
  unfold Session.isActive
  cases hactive : st.session.active with
  | false =>
    rw [if_neg (by simp)]
    refine outcome_of_short ?_ rfl rfl rfl
    simp only [pending, hactive, Bool.false_eq_true, if_false, List.length_nil,
      queryPacketSize_eq]
    omega
  | true =>
    rw [if_pos rfl]
    by_cases hread : ∃ block rest,
        readExact svc.queryPacketSize (Peer.tokens st.session.sock.inbound) = .full block rest
    · obtain ⟨block, rest, hread⟩ := hread
      exact svc.turn_full hactive hopen hread
    · push Not at hread
      obtain ⟨st', hturn, houtcome⟩ := svc.turn_short hactive hopen hread
      rw [hturn]
      exact houtcome

/-! ## The blocks of a session -/

/-- The `i`-th block of the bytes is there in full and is parsed as `query`. -/
def BlockAt (svc : BaseOracleService) (bs : List UInt8) (i : Nat) (query : QueryPacket) :
    Prop :=
  (i + 1) * svc.queryPacketSize ≤ bs.length ∧
    svc.parseQueryPacket (slice bs (i * svc.queryPacketSize) svc.queryPacketSize) = some query

theorem blockAt_zero_iff {svc : BaseOracleService} {block bs : List UInt8}
    {query : QueryPacket} (hlen : block.length = svc.queryPacketSize) :
    svc.BlockAt (block ++ bs) 0 query ↔ svc.parseQueryPacket block = some query := by
  unfold BlockAt
  rw [Nat.zero_mul, slice_append_left hlen, List.length_append]
  constructor
  · exact fun h => h.2
  · exact fun h => ⟨by omega, h⟩

theorem blockAt_succ_iff {svc : BaseOracleService} {block bs : List UInt8} {i : Nat}
    {query : QueryPacket} (hlen : block.length = svc.queryPacketSize) :
    svc.BlockAt (block ++ bs) (i + 1) query ↔ svc.BlockAt bs i query := by
  unfold BlockAt
  rw [Nat.succ_mul (i + 1), Nat.succ_mul i, List.length_append, hlen,
    slice_append_right (by omega), hlen, Nat.add_sub_cancel]
  constructor
  · rintro ⟨hle, hparse⟩
    exact ⟨by omega, hparse⟩
  · rintro ⟨hle, hparse⟩
    exact ⟨by omega, hparse⟩

/-- Every logged packet is a block of the received bytes. -/
theorem Parsed.sound {svc : BaseOracleService} {k pos : Nat} {bs out : List UInt8}
    {log : List (Nat × QueryPacket)} {ok : Bool} (h : Parsed svc k pos bs log out ok) :
    ∀ p ∈ log, ∃ i, p.1 = pos + i * svc.queryPacketSize ∧ svc.BlockAt bs i p.2 := by
  -- an entry of the rest is one block further
  have htail : ∀ {pos : Nat} {block bs : List UInt8} {p : Nat × QueryPacket},
      block.length = svc.queryPacketSize →
      (∃ i, p.1 = pos + svc.queryPacketSize + i * svc.queryPacketSize ∧
        svc.BlockAt bs i p.2) →
      ∃ i, p.1 = pos + i * svc.queryPacketSize ∧ svc.BlockAt (block ++ bs) i p.2 := by
    rintro pos block bs p hlen ⟨i, hpos, hblock⟩
    exact ⟨i + 1, by rw [hpos, Nat.succ_mul]; omega, (blockAt_succ_iff hlen).mpr hblock⟩
  induction h with
  | short hlen => simp
  | skipped hlen hparse rest ih =>
    intro p hp
    exact htail hlen (ih p hp)
  | answered hlen hparse rest ih =>
    intro p hp
    rcases List.mem_cons.mp hp with rfl | hp
    · exact ⟨0, by simp, (blockAt_zero_iff hlen).mpr hparse⟩
    · exact htail hlen (ih p hp)
  | cut bs hlen hparse hpre hne =>
    intro p hp
    obtain rfl := List.mem_singleton.mp hp
    exact ⟨0, by simp, (blockAt_zero_iff hlen).mpr hparse⟩

/-- When no reply is cut, every block that parses is logged. -/
theorem Parsed.complete {svc : BaseOracleService} {k pos : Nat} {bs out : List UInt8}
    {log : List (Nat × QueryPacket)} {ok : Bool} (h : Parsed svc k pos bs log out ok)
    (hok : ok = true) {i : Nat} {query : QueryPacket} (hblock : svc.BlockAt bs i query) :
    (pos + i * svc.queryPacketSize, query) ∈ log := by
  induction h generalizing i with
  | short hlen =>
    have hle := hblock.1
    rw [Nat.succ_mul] at hle
    omega
  | skipped hlen hparse rest ih =>
    cases i with
    | zero =>
      rw [blockAt_zero_iff hlen, hparse] at hblock
      simp at hblock
    | succ i =>
      have hmem := ih hok ((blockAt_succ_iff hlen).mp hblock)
      rw [Nat.succ_mul, Nat.add_comm (i * _), ← Nat.add_assoc]
      exact hmem
  | answered hlen hparse rest ih =>
    cases i with
    | zero =>
      rw [blockAt_zero_iff hlen, hparse] at hblock
      obtain rfl := Option.some.inj hblock
      simp
    | succ i =>
      have hmem := ih hok ((blockAt_succ_iff hlen).mp hblock)
      rw [Nat.succ_mul, Nat.add_comm (i * _), ← Nat.add_assoc]
      exact List.mem_cons_of_mem _ hmem
  | cut bs hlen hparse hpre hne => simp at hok

/-- The packets are logged in the order of their positions. -/
theorem Parsed.increasing {svc : BaseOracleService} {k pos : Nat} {bs out : List UInt8}
    {log : List (Nat × QueryPacket)} {ok : Bool} (h : Parsed svc k pos bs log out ok) :
    log.Pairwise fun p q => p.1 < q.1 := by
  induction h with
  | short hlen => exact .nil
  | skipped hlen hparse rest ih => exact ih
  | answered hlen hparse rest ih =>
    refine List.pairwise_cons.mpr ⟨fun p hp => ?_, ih⟩
    obtain ⟨i, hpos, -⟩ := rest.sound p hp
    rw [hpos, queryPacketSize_eq]
    omega
  | cut bs hlen hparse hpre hne => exact List.pairwise_singleton _ _

/-- The replies to a list of queries, from the `k`-th on. -/
def replies (svc : BaseOracleService) : Nat → List QueryPacket → List UInt8
  | _, [] => []
  | k, query :: queries => svc.reply k query ++ replies svc (k + 1) queries

/-- What is written are the replies to the logged packets, the last one
perhaps cut. -/
theorem Parsed.written {svc : BaseOracleService} {k pos : Nat} {bs out : List UInt8}
    {log : List (Nat × QueryPacket)} {ok : Bool} (h : Parsed svc k pos bs log out ok) :
    out <+: svc.replies k (log.map Prod.snd) := by
  induction h with
  | short hlen => exact List.nil_prefix
  | skipped hlen hparse rest ih => exact ih
  | answered hlen hparse rest ih => exact (List.prefix_append_right_inj _).mpr ih
  | cut bs hlen hparse hpre hne => exact hpre.trans (List.prefix_append _ _)

/-! ## The frames of a session -/

/-- The frame `f` is sent at offset `off`. -/
def FrameAt (sent : List Frame) (off : Nat) (f : Frame) : Prop :=
  ∃ before after, sent = before ++ f :: after ∧ (stream before).length = off

/-- The client sends the frames: in any chunks, with any timeouts between
frames, and with the connection perhaps cut at some point. -/
def Carries (sent : List Frame) (inbound : List Inbound) : Prop :=
  ∃ (schedule : List (Nat × Frame)) (n : Nat), schedule.map Prod.snd = sent ∧
    Peer.tokens inbound <+:
      (schedule.flatMap fun p => List.replicate p.1 none ++ p.2.bytes.map some) ++
        List.replicate n none

/-- A session answers only frames of its client: every parsed packet is one
sent query frame with a payload of the right size, the packets are in the order
of the frames, and what is written are their replies. -/
def AnswersFrames (svc : BaseOracleService) (sent : List Frame) (st : State) : Prop :=
  (∀ p ∈ st.parsed, ∃ f, FrameAt sent p.1 f ∧ f.header.type = OracleMachineQuery.type ∧
    f.payload.length = OracleMachineQuery.sizeOf + svc.interfaceQuerySize ∧
    p.2 = packetOf f.header f.payload) ∧
  st.parsed.Pairwise (fun p q => p.1 < q.1) ∧
  st.session.sock.written <+: svc.replies 0 (st.parsed.map Prod.snd)

/-- Every block of the stream that has the type byte of a query in its place
is a whole frame. -/
def Aligned (svc : BaseOracleService) (sent : List Frame) : Prop :=
  ∀ i, (i + 1) * svc.queryPacketSize ≤ (stream sent).length →
    (stream sent).getD (i * svc.queryPacketSize + 3) 0 = OracleMachineQuery.type →
    ∃ f, FrameAt sent (i * svc.queryPacketSize) f ∧ f.bytes.length = svc.queryPacketSize

theorem burst_replicate_none (n : Nat) (ts : List (Option UInt8)) :
    burst (List.replicate (n + 1) none ++ ts) = [] := by
  rw [List.replicate_succ, List.cons_append, burst]
  simp

/-- Before the first timeout the service receives bytes of the stream. -/
theorem burst_of_carries {sent : List Frame} {inbound : List Inbound}
    (h : Carries sent inbound) : burst (Peer.tokens inbound) <+: stream sent := by
  obtain ⟨schedule, n, rfl, hpre⟩ := h
  refine (burst_mono hpre).trans ?_
  clear hpre
  induction schedule with
  | nil =>
    cases n with
    | zero => exact List.nil_prefix
    | succ n => exact List.nil_prefix
  | cons p schedule ih =>
    obtain ⟨idle, f⟩ := p
    rw [List.flatMap_cons, List.append_assoc, List.append_assoc]
    cases idle with
    | zero =>
      rw [List.replicate_zero, List.nil_append, burst_append]
      exact (List.prefix_append_right_inj _).mpr ih
    | succ idle =>
      rw [burst_replicate_none]
      exact List.nil_prefix

/-- The block at the offset of a frame of its length is that frame. -/
theorem slice_stream {sent : List Frame} {off : Nat} {f : Frame} (h : FrameAt sent off f) :
    slice (stream sent) off f.bytes.length = f.bytes := by
  obtain ⟨before, after, rfl, rfl⟩ := h
  unfold stream
  rw [List.flatMap_append, List.flatMap_cons, slice_append_right (le_refl _), Nat.sub_self,
    slice_append_left rfl]

/-- What one session of the client gives, in terms of the received bytes. -/
theorem handleSession_spec (svc : BaseOracleService) (inbound : List Inbound)
    (sends : List (Option Nat)) :
    ∃ st ok, svc.handleSession (Session.ofSocket ⟨inbound, sends, []⟩) = some st ∧
      Parsed svc 0 0 (burst (Peer.tokens inbound)) st.parsed st.session.sock.written ok ∧
      (sends = [] → ok = true) := by
  obtain ⟨st, hrun, log, out, used, ok, hparsed, hlog, hwritten, hsends, hok⟩ :=
    run_spec (fun st : State => (Peer.tokens st.session.sock.inbound).length)
      svc.pass_spec ((Peer.tokens inbound).length + 1)
      { session := Session.ofSocket ⟨inbound, sends, []⟩, position := 0, parsed := [] } rfl
      (Nat.lt_succ_self _)
  refine ⟨st, ok, hrun, ?_, ?_⟩
  · rw [hlog, hwritten]
    exact hparsed
  · rintro rfl
    have hused : used = [] := (List.append_eq_nil_iff.mp hsends.symm).1
    exact hok.mpr (by simp [hused])

/-- A parsed block of an aligned stream is a whole frame. -/
theorem frame_of_blockAt {svc : BaseOracleService} {sent : List Frame} {bs : List UInt8}
    {i : Nat} {query : QueryPacket} (haligned : svc.Aligned sent) (hpre : bs <+: stream sent)
    (hblock : svc.BlockAt bs i query) :
    ∃ f, FrameAt sent (i * svc.queryPacketSize) f ∧
      f.header.type = OracleMachineQuery.type ∧
      f.payload.length = OracleMachineQuery.sizeOf + svc.interfaceQuerySize ∧
      query = packetOf f.header f.payload := by
  obtain ⟨hle, hparse⟩ := hblock
  have hend : i * svc.queryPacketSize + svc.queryPacketSize ≤ bs.length := by
    rw [← Nat.succ_mul]
    exact hle
  rw [← slice_of_isPrefix hpre hend] at hparse
  have hlen := length_slice (hend.trans hpre.length_le)
  obtain ⟨header, body, hsplit, hbody, htype⟩ := svc.exists_header_body hlen
  have hbyte : header.type =
      (stream sent).getD (i * svc.queryPacketSize + 3) 0 := by
    rw [htype, getD_slice _ _ (by rw [queryPacketSize_eq]; omega)]
  rw [hsplit, svc.parseQueryPacket_append header hbody] at hparse
  by_cases hquery : header.type = OracleMachineQuery.type
  · obtain ⟨f, hat, hflen⟩ := haligned i (hle.trans hpre.length_le) (hbyte ▸ hquery)
    have hbytes := slice_stream hat
    rw [hflen, hsplit, Frame.bytes] at hbytes
    obtain ⟨hheader, hpayload⟩ := List.append_inj hbytes
      (by rw [header.length_bytes, f.header.length_bytes])
    obtain rfl : header = f.header := RequestResponseHeader.ext hheader
    subst hpayload
    rw [if_pos hquery] at hparse
    refine ⟨f, hat, hquery, ?_, (Option.some.inj hparse).symm⟩
    rw [f.length_bytes, queryPacketSize_eq] at hflen
    simp only [OracleMachineQuery.sizeOf]
    omega
  · rw [if_neg hquery] at hparse
    simp at hparse

/-- The condition under which the service isolates the frames of its client:
whatever the chunks, the timeouts between frames and the outcomes of the sends,
a session answers only whole query frames, exactly when every block of the
stream that carries the type byte of a query is a whole frame. -/
theorem handleSession_isolates_iff (svc : BaseOracleService) (sent : List Frame) :
    (∀ inbound sends, Carries sent inbound →
      ∃ st, svc.handleSession (Session.ofSocket ⟨inbound, sends, []⟩) = some st ∧
        svc.AnswersFrames sent st) ↔
    svc.Aligned sent := by
  constructor
  · intro h i hle hbyte
    -- the client sends everything in one chunk
    have hcarries : Carries sent (Peer.putBack (stream sent) []) := by
      refine ⟨sent.map fun f => (0, f), 0, by simp, ?_⟩
      rw [Peer.tokens_putBack]
      simp [stream, List.flatMap_map, List.map_flatMap, Peer.tokens]
    obtain ⟨st, hrun, hframes, -⟩ := h _ [] hcarries
    obtain ⟨st', ok, hrun', hparsed, hok⟩ :=
      svc.handleSession_spec (Peer.putBack (stream sent) []) []
    obtain rfl : st' = st := by
      rw [hrun] at hrun'
      exact (Option.some.inj hrun').symm
    rw [Peer.tokens_putBack, burst_append] at hparsed
    have hend : i * svc.queryPacketSize + svc.queryPacketSize ≤ (stream sent).length := by
      rw [← Nat.succ_mul]
      exact hle
    obtain ⟨header, body, hsplit, hbody, htype⟩ := svc.exists_header_body (length_slice hend)
    rw [getD_slice _ _ (by rw [queryPacketSize_eq]; omega), hbyte] at htype
    have hblock : svc.BlockAt (stream sent ++ burst (Peer.tokens [])) i
        (packetOf header body) := by
      refine ⟨by rw [List.length_append]; omega, ?_⟩
      rw [slice_of_isPrefix (List.prefix_append _ _) hend, hsplit,
        svc.parseQueryPacket_append header hbody, if_pos htype]
    obtain ⟨f, hat, -, hlen, -⟩ := hframes _ (hparsed.complete (hok rfl) hblock)
    rw [Nat.zero_add] at hat
    refine ⟨f, hat, ?_⟩
    rw [f.length_bytes, hlen, queryPacketSize_eq, OracleMachineQuery.sizeOf]
    omega
  · intro haligned inbound sends hcarries
    obtain ⟨st, ok, hrun, hparsed, -⟩ := svc.handleSession_spec inbound sends
    refine ⟨st, hrun, ?_, hparsed.increasing, hparsed.written⟩
    intro p hp
    obtain ⟨i, hpos, hblock⟩ := hparsed.sound p hp
    obtain ⟨f, hat, hspec⟩ := frame_of_blockAt haligned (burst_of_carries hcarries) hblock
    rw [hpos, Nat.zero_add]
    exact ⟨f, hat, hspec⟩

/-- A service with one byte of query payload that answers the byte. -/
def echoService : BaseOracleService where
  core := Core.sample
  interfaceQuerySize := 1
  interfaceReplySize := 1
  querySize_lt := by decide
  replySize_lt := by decide
  processInterfaceQuery := fun _ query _ => (0, query)
  padding := fun _ => (0, 0)

theorem length_bareHeader : ([24, 0, 0, 190, 0, 0, 0, 0] : List UInt8).length = 8 := rfl

/-- A query with id 1 and no interface payload. -/
def bareQuery : Frame where
  header := ⟨[24, 0, 0, 190, 0, 0, 0, 0], length_bareHeader⟩
  payload := [1, 0, 0, 0, 0, 0, 0, 0, 0, 0, 0, 0, 0, 0, 0, 0]
  sizeField_eq := rfl

/-- A query with id 2 and the interface payload 7. -/
def echoQuery : Frame where
  header := ⟨[25, 0, 0, 190, 0, 0, 0, 0], rfl⟩
  payload := [2, 0, 0, 0, 0, 0, 0, 0, 0, 0, 0, 0, 0, 0, 0, 0, 7]
  sizeField_eq := rfl

/-- A query that is one byte short takes the missing byte from the frame behind
it, and the frame behind it is lost. -/
theorem handleSession_mixes_frames :
    Carries [bareQuery, echoQuery] (Peer.putBack (stream [bareQuery, echoQuery]) []) ∧
    ∃ st, echoService.handleSession
        (Session.ofSocket ⟨Peer.putBack (stream [bareQuery, echoQuery]) [], [], []⟩) = some st ∧
      st.parsed = [(0, packetOf bareQuery.header (bareQuery.payload ++ [25]))] ∧
      ¬ echoService.AnswersFrames [bareQuery, echoQuery] st := by
  refine ⟨⟨[(0, bareQuery), (0, echoQuery)], 0, rfl, by decide⟩, ?_⟩
  obtain ⟨st, ok, hrun, -, -⟩ := echoService.handleSession_spec
    (Peer.putBack (stream [bareQuery, echoQuery]) []) []
  have hparsed : (echoService.handleSession
      (Session.ofSocket ⟨Peer.putBack (stream [bareQuery, echoQuery]) [], [], []⟩)).map
        State.parsed = some [(0, packetOf bareQuery.header (bareQuery.payload ++ [25]))] := by
    decide
  rw [hrun, Option.map_some, Option.some.injEq] at hparsed
  refine ⟨st, hrun, hparsed, ?_⟩
  rintro ⟨hframes, -⟩
  obtain ⟨f, ⟨before, after, hsent, hoff⟩, -, hlen, -⟩ :=
    hframes _ (by rw [hparsed]; exact List.mem_singleton_self _)
  -- the only frame at offset 0 is the short one
  cases before with
  | nil =>
    obtain rfl : f = bareQuery := (List.cons.inj hsent).1.symm
    exact absurd hlen (by decide)
  | cons g before =>
    simp only [stream, List.flatMap_cons, List.length_append, g.length_bytes] at hoff
    omega

end BaseOracleService

end OracleMachine.Services
