import OracleMachine.Network.Recording

/-!
# The attempts of a request

`connect`, `sendAndReceive` and `processQueryRequest` of `InterfaceClient`, the code
of its worker, over an arbitrary socket, with the list of the attempts.  Between
any two operations of an attempt the environment may change the socket and shut
the session down (`Meanwhile`); what `connect` gives and every outcome of `send`
and `recv` are up to it as well.

* `Client` is the session that a client keeps from one request to the next.  An
  active session holds its descriptor, whatever the requests were
  (`sound_attemptLoop`).
* `Tap` keeps the bytes of each attempt.  `record_exchange` says what one
  attempt adds to the record, and `forget_attemptLoop` that the record changes
  nothing.
* `Takes` and `delivered` say in terms of the environment alone whether an
  attempt sends the query and what it gets to read then.

The query counter and the `_connected` flag are left out: no modelled function
reads them.
-/

namespace OracleMachine.Node

/-- `InterfaceQueryResult`. -/
structure InterfaceQueryResult where
  replyData : List UInt8
  valid : Bool
  deriving DecidableEq

namespace Retries

open Network Network.Wire

variable {σ : Type}

/-! ## The code -/

/-- What happens between two operations of the worker: the connection goes on,
and another thread may call `forceShutdown`.  A shutdown during a `recv` or a
`send` is one of their outcomes, followed by a shutdown here. -/
structure Meanwhile (σ : Type) where
  sock : σ → σ
  shutdown : Bool

/-- The session afterwards. -/
def Meanwhile.apply [Socket σ] (m : Meanwhile σ) (session : Session σ) : Session σ :=
  if m.shutdown then Session.forceShutdown { session with sock := m.sock session.sock }
  else { session with sock := m.sock session.sock }

/-- The environment of one attempt. -/
structure Conditions (σ : Type) where
  connected : Option σ
  setTimeout : Bool
  beforeCheck : Meanwhile σ
  beforeSend : Meanwhile σ
  beforeHeader : Meanwhile σ
  beforePayload : Meanwhile σ
  afterReply : Meanwhile σ

/-- `QueryRequest::queryData`: a full packet, so not empty, and its size is the
`int` that `sendData` takes. -/
structure QueryData where
  bytes : List UInt8
  bytes_ne : bytes ≠ []
  length_lt : bytes.length < 2 ^ 31

/-- One attempt: the answer of `sendAndReceive`, or `none` when `connect`
failed, and the session before and after it. -/
structure Turn (σ : Type) where
  rc : Option Int
  before : Option (Session σ)
  after : Option (Session σ)

/-- What `processQueryRequest` returns and leaves behind, with its attempts. -/
structure Outcome (σ : Type) where
  returned : Bool
  result : InterfaceQueryResult
  session : Option (Session σ)
  turns : List (Turn σ)

/-- The outcome with one more attempt in front. -/
def Outcome.behind (out : Outcome σ) (turn : Turn σ) : Outcome σ :=
  { out with turns := turn :: out.turns }

/-- `std::vector::resize`. -/
def resize (bs : List UInt8) (n : Nat) : List UInt8 :=
  bs.take n ++ List.replicate (n - bs.length) 0

/-- Write `data` into `bs` at an offset. -/
def overwrite (bs : List UInt8) (off : Nat) (data : List UInt8) : List UInt8 :=
  bs.take off ++ data ++ bs.drop (off + data.length)

/-- `MAX_SEND_RETRIES`. -/
def maxSendRetries : Nat := 8

/-- The result object of a request before its first attempt. -/
def emptyResult : InterfaceQueryResult := { replyData := [], valid := false }

/-- The new connection of `InterfaceClient::connect`. -/
def reconnect (env : Conditions σ) : Bool × Option (Session σ) :=
  match env.connected with
  | none => (false, none)
  | some sock => if !env.setTimeout then (false, none) else (true, some (Session.ofSocket sock))

/-- `InterfaceClient::connect`. -/
def connect (session : Option (Session σ)) (env : Conditions σ) :
    Bool × Option (Session σ) :=
  match session with
  | some s => if s.isActive then (true, some s) else reconnect env
  | none => reconnect env

section code

variable [Socket σ]

/-- The part of `sendAndReceive` behind a complete reply header. -/
def receivePayload (core : Core) (session : Session σ) (header : RequestResponseHeader)
    (env : Conditions σ) (result : InterfaceQueryResult) :
    Int × InterfaceQueryResult × Session σ :=
  let size := header.size core
  if size < RequestResponseHeader.sizeOf then (-1, result, session.close)
  else
    let payloadSize := size - RequestResponseHeader.sizeOf
    let replyData := resize result.replyData size
    let received := (env.beforePayload.apply session).receive payloadSize
    let result := { result with
      replyData := overwrite replyData RequestResponseHeader.sizeOf received.1.bytes }
    if received.1.ret ≠ payloadSize then (-1, result, received.2.close)
    else (1, { result with valid := true }, env.afterReply.apply received.2)

/-- The part of `sendAndReceive` behind the send. -/
def receiveReply (core : Core) (session : Session σ) (env : Conditions σ)
    (result : InterfaceQueryResult) : Int × InterfaceQueryResult × Session σ :=
  let received := (env.beforeHeader.apply session).receiveExact RequestResponseHeader.sizeOf
  match RequestResponseHeader.ofBytes? received.1.bytes with
  -- headerReceived != sizeof(RequestResponseHeader): the session stays as it is
  | none => (-1, result, received.2)
  | some header => receivePayload core received.2 header env result

/-- `sendAndReceive` on a session: `1` is success, `0` a failure that is retried,
`-1` a failure that is not. -/
def exchange (core : Core) (session : Session σ) (query : List UInt8) (env : Conditions σ)
    (result : InterfaceQueryResult) : Int × InterfaceQueryResult × Session σ :=
  let session := env.beforeCheck.apply session
  if !session.isActive then (0, result, session)
  else
    let sent := (env.beforeSend.apply session).sendData query
    if sent.1 then receiveReply core sent.2 env result
    else (0, result, sent.2.close)

/-- `InterfaceClient::sendAndReceive`. -/
def sendAndReceive (core : Core) (session : Option (Session σ)) (query : List UInt8)
    (env : Conditions σ) (result : InterfaceQueryResult) :
    Int × InterfaceQueryResult × Option (Session σ) :=
  match session with
  | none => (0, result, none)
  | some s =>
    let out := exchange core s query env result
    (out.1, out.2.1, some out.2.2)

/-- The attempts of `processQueryRequest`, at most `left` of them. -/
def attemptLoop (core : Core) (query : List UInt8) :
    Nat → (Nat → Conditions σ) → Option (Session σ) → InterfaceQueryResult → Outcome σ
  | 0, _, session, result => { returned := result.valid, result, session, turns := [] }
  | left + 1, envs, session, result =>
    let connected := connect session (envs 0)
    if !connected.1 then
      { returned := false, result, session := connected.2
        turns := [{ rc := none, before := connected.2, after := connected.2 }] }
    else
      let out := sendAndReceive core connected.2 query (envs 0) result
      let turn : Turn σ := { rc := some out.1, before := connected.2, after := out.2.2 }
      if out.1 = 1 then
        { returned := out.2.1.valid, result := out.2.1, session := out.2.2, turns := [turn] }
      else if out.1 < 0 then
        { returned := false, result := out.2.1, session := out.2.2, turns := [turn] }
      else
        (attemptLoop core query left (fun k => envs (k + 1)) out.2.2 out.2.1).behind turn

end code

/-! ## The buffer of a reply -/

theorem length_resize (bs : List UInt8) (n : Nat) : (resize bs n).length = n := by
  rw [resize, List.length_append, List.length_take, List.length_replicate]
  omega

/-- The payload stands behind what was in the place of the header, filled up with
zeros. -/
theorem overwrite_resize (bs payload : List UInt8) :
    overwrite (resize bs (8 + payload.length)) 8 payload = resize bs 8 ++ payload := by
  have hlen := length_resize bs (8 + payload.length)
  have htake : (resize bs (8 + payload.length)).take 8 = resize bs 8 := by
    rw [resize, resize, List.take_append, List.take_take, List.take_replicate, List.length_take]
    congr 2
    · omega
    · omega
  rw [overwrite, htake, List.drop_of_length_le (by omega), List.append_nil]

theorem overwrite_emptyResult (payload : List UInt8) :
    overwrite (resize emptyResult.replyData (8 + payload.length)) 8 payload =
      List.replicate 8 0 ++ payload := overwrite_resize [] payload

/-- `receivePayload` by the answer of its `receive`. -/
theorem receivePayload_eq [Socket σ] {core : Core} {s s' : Session σ}
    {header : RequestResponseHeader} {env : Conditions σ} (result : InterfaceQueryResult)
    {payloadSize : Nat} {received : Received} (hsize : header.size core = 8 + payloadSize)
    (hrecv : (env.beforePayload.apply s).receive payloadSize = (received, s')) :
    receivePayload core s header env result =
      if received.ret ≠ payloadSize then
        (-1,
          { result with
            replyData := overwrite (resize result.replyData (8 + payloadSize)) 8 received.bytes },
          s'.close)
      else
        (1,
          { replyData := overwrite (resize result.replyData (8 + payloadSize)) 8 received.bytes
            valid := true },
          env.afterReply.apply s') := by
  unfold receivePayload
  simp only [hsize, RequestResponseHeader.sizeOf, Nat.add_sub_cancel_left, hrecv]
  rw [if_neg (by omega)]

/-! ## One turn of the loop -/

section turn

variable [Socket σ] {core : Core} {query : List UInt8} {left : Nat} {envs : Nat → Conditions σ}
  {session : Option (Session σ)} {result : InterfaceQueryResult}

theorem attemptLoop_refused (hconnect : connect session (envs 0) = (false, none)) :
    attemptLoop core query (left + 1) envs session result =
      { returned := false, result, session := none, turns := [⟨none, none, none⟩] } := by
  simp only [attemptLoop, hconnect, Bool.not_false, if_true]

theorem attemptLoop_connected {s s' : Session σ} {rc : Int} {result' : InterfaceQueryResult}
    (hconnect : connect session (envs 0) = (true, some s))
    (hout : exchange core s query (envs 0) result = (rc, result', s')) :
    attemptLoop core query (left + 1) envs session result =
      if rc = 1 then
        { returned := result'.valid, result := result', session := some s'
          turns := [⟨some rc, some s, some s'⟩] }
      else if rc < 0 then
        { returned := false, result := result', session := some s'
          turns := [⟨some rc, some s, some s'⟩] }
      else
        (attemptLoop core query left (fun k => envs (k + 1)) (some s') result').behind
          ⟨some rc, some s, some s'⟩ := by
  simp only [attemptLoop, hconnect, sendAndReceive, hout, Bool.not_true, Bool.false_eq_true,
    if_false]

end turn

/-! ## What the environment lets an attempt do -/

/-- The connection takes the whole query in an attempt on the session. -/
def Takes [Socket σ] (query : List UInt8) (env : Conditions σ) (s : Session σ) : Prop :=
  (env.beforeCheck.apply s).active = true ∧
    ((env.beforeSend.apply (env.beforeCheck.apply s)).sendData query).1 = true

/-- The bytes that the single `recv` behind the header delivers. -/
def payloadDelivered [Socket σ] (core : Core) (s : Session σ) (header : RequestResponseHeader)
    (env : Conditions σ) : List UInt8 :=
  if header.size core < RequestResponseHeader.sizeOf then []
  else ((env.beforePayload.apply s).receive
    (header.size core - RequestResponseHeader.sizeOf)).1.bytes

/-- The bytes that the `recv` calls behind the query deliver. -/
def replyDelivered [Socket σ] (core : Core) (s : Session σ) (env : Conditions σ) : List UInt8 :=
  let received := (env.beforeHeader.apply s).receiveExact RequestResponseHeader.sizeOf
  received.1.bytes ++
    match RequestResponseHeader.ofBytes? received.1.bytes with
    | none => []
    | some header => payloadDelivered core received.2 header env

/-- The bytes that an attempt on the session gets to read when the connection
takes the query. -/
def delivered [Socket σ] (core : Core) (query : List UInt8) (env : Conditions σ)
    (s : Session σ) : List UInt8 :=
  replyDelivered core ((env.beforeSend.apply (env.beforeCheck.apply s)).sendData query).2 env

/-- The session of attempt number `k`.  A session that is retried is given up,
so that all but the first attempt have a new one. -/
def sessionAt (session : Option (Session σ)) (envs : Nat → Conditions σ) :
    Nat → Option (Session σ)
  | 0 => (connect session (envs 0)).2
  | k + 1 => (connect none (envs (k + 1))).2

/-! ## The sessions that a client can have -/

/-- A session that is active still holds its descriptor. -/
def Sound (session : Option (Session σ)) : Prop :=
  ∀ s, session = some s → s.active = true → s.isOpen = true

theorem sound_none : Sound (none : Option (Session σ)) := by
  intro s h
  simp at h

theorem sound_some {s : Session σ} (h : s.active = true → s.isOpen = true) :
    Sound (some s) := by
  intro s' hs
  rwa [← Option.some.inj hs]

theorem sound_inactive {s : Session σ} (h : s.active = false) : Sound (some s) := by
  apply sound_some
  rw [h]
  simp

/-- The client: its session. -/
structure Client (σ : Type) where
  session : Option (Session σ)
  sound : Sound session

theorem apply_isOpen [Socket σ] (m : Meanwhile σ) (s : Session σ) : (m.apply s).isOpen = s.isOpen := by
  unfold Meanwhile.apply Session.forceShutdown
  split
  · split <;> rfl
  · rfl

theorem active_of_apply [Socket σ] {m : Meanwhile σ} {s : Session σ} (h : (m.apply s).active = true) :
    s.active = true := by
  unfold Meanwhile.apply at h
  split at h
  · rw [Session.forceShutdown_active h] at h
    exact h
  · exact h

theorem close_of_isOpen [Socket σ] {s : Session σ} (h : s.isOpen = true) : Sound (some s.close) :=
  sound_inactive (Session.active_close h)

/-- `connect` fails, or keeps the active session, or makes a new one. -/
theorem connect_cases (session : Option (Session σ)) (env : Conditions σ) :
    connect session env = (false, none) ∨
      (∃ s, session = some s ∧ s.active = true ∧ connect session env = (true, some s)) ∨
      (∃ sock, env.connected = some sock ∧
        connect session env = (true, some (Session.ofSocket sock))) := by
  have hreconnect : reconnect env = (false, none) ∨
      ∃ sock, env.connected = some sock ∧
        reconnect env = (true, some (Session.ofSocket sock)) := by
    unfold reconnect
    cases env.connected with
    | none => exact .inl rfl
    | some sock =>
      cases env.setTimeout with
      | false => exact .inl rfl
      | true => exact .inr ⟨sock, rfl, rfl⟩
  cases session with
  | none => exact hreconnect.imp_right .inr
  | some s =>
    by_cases hactive : s.active = true
    · exact .inr (.inl ⟨s, rfl, hactive, if_pos hactive⟩)
    · rw [show connect (some s) env = reconnect env from if_neg hactive]
      exact hreconnect.imp_right .inr

theorem sound_connect {session : Option (Session σ)} (h : Sound session) (env : Conditions σ) :
    Sound (connect session env).2 := by
  rcases connect_cases session env with hc | ⟨s, rfl, -, hc⟩ | ⟨sock, -, hc⟩
  · rw [hc]
    exact sound_none
  · rw [hc]
    exact h
  · rw [hc]
    exact sound_some fun _ => rfl

variable [Socket σ]

theorem sound_receivePayload (core : Core) {s : Session σ} (header : RequestResponseHeader)
    (env : Conditions σ) (result : InterfaceQueryResult) (hopen : s.isOpen = true) :
    Sound (some (receivePayload core s header env result).2.2) := by
  have hreceived : ((env.beforePayload.apply s).receive
      (header.size core - RequestResponseHeader.sizeOf)).2.isOpen = true := by
    rw [Session.isOpen_receive, apply_isOpen, hopen]
  unfold receivePayload
  simp only
  split
  · exact close_of_isOpen hopen
  · split
    · exact close_of_isOpen hreceived
    · apply sound_some
      intro _
      rw [apply_isOpen, hreceived]

theorem sound_exchange (core : Core) {s : Session σ} (query : List UInt8) (env : Conditions σ)
    (result : InterfaceQueryResult) (hsound : Sound (some s)) :
    Sound (some (exchange core s query env result).2.2) := by
  unfold exchange
  simp only
  split
  · rename_i hactive
    exact sound_inactive (by simpa [Session.isActive] using hactive)
  · rename_i hactive
    have hopen : s.isOpen = true :=
      hsound s rfl (active_of_apply (by simpa [Session.isActive] using hactive))
    have hsent : ((env.beforeSend.apply (env.beforeCheck.apply s)).sendData query).2.isOpen =
        true := by
      rw [Session.isOpen_sendData, apply_isOpen, apply_isOpen, hopen]
    split
    · unfold receiveReply
      simp only
      have hheader : ((env.beforeHeader.apply ((env.beforeSend.apply
          (env.beforeCheck.apply s)).sendData query).2).receiveExact
          RequestResponseHeader.sizeOf).2.isOpen = true := by
        rw [Session.receiveExact, Session.isOpen_receiveLoop, apply_isOpen, hsent]
      split
      · exact sound_some fun _ => hheader
      · exact sound_receivePayload core _ env result hheader
    · exact close_of_isOpen hsent

theorem sound_sendAndReceive (core : Core) {session : Option (Session σ)} (query : List UInt8)
    (env : Conditions σ) (result : InterfaceQueryResult) (h : Sound session) :
    Sound (sendAndReceive core session query env result).2.2 := by
  cases session with
  | none => exact sound_none
  | some s => exact sound_exchange core query env result h

theorem sound_attemptLoop (core : Core) (query : List UInt8) (left : Nat)
    (envs : Nat → Conditions σ) {session : Option (Session σ)} (result : InterfaceQueryResult)
    (h : Sound session) : Sound (attemptLoop core query left envs session result).session := by
  induction left generalizing envs session result with
  | zero => exact h
  | succ left ih =>
    have hconnected := sound_connect h (envs 0)
    have hout := sound_sendAndReceive core query (envs 0) result hconnected
    unfold attemptLoop
    simp only
    split
    · exact hconnected
    · split
      · exact hout
      · split
        · exact hout
        · exact ih _ _ hout

/-- `InterfaceClient::processQueryRequest`. -/
def processQueryRequest (core : Core) (client : Client σ) (query : QueryData)
    (envs : Nat → Conditions σ) : Outcome σ :=
  attemptLoop core query.bytes (maxSendRetries + 1) envs client.session emptyResult

/-- The client after a request. -/
def Client.after (core : Core) (client : Client σ) (query : QueryData)
    (envs : Nat → Conditions σ) : Client σ where
  session := (processQueryRequest core client query envs).session
  sound := sound_attemptLoop core query.bytes (maxSendRetries + 1) envs emptyResult client.sound

/-! ## One attempt on a tapped socket -/

/-- What happens meanwhile leaves no trace in the record. -/
def Meanwhile.tap (m : Meanwhile σ) : Meanwhile (Tap σ) where
  sock := fun tap => { tap with sock := m.sock tap.sock }
  shutdown := m.shutdown

/-- The same environment for tapped sockets.  The record of a new connection is
empty. -/
def Conditions.tap (env : Conditions σ) : Conditions (Tap σ) where
  connected := env.connected.map Tap.ofSocket
  setTimeout := env.setTimeout
  beforeCheck := env.beforeCheck.tap
  beforeSend := env.beforeSend.tap
  beforeHeader := env.beforeHeader.tap
  beforePayload := env.beforePayload.tap
  afterReply := env.afterReply.tap

/-- The bytes that were sent on the connection of a session. -/
def sentOn : Option (Session (Tap σ)) → List UInt8
  | none => []
  | some s => s.sock.sent

/-- The bytes that were read from the connection of a session. -/
def readOn : Option (Session (Tap σ)) → List UInt8
  | none => []
  | some s => s.sock.read

/-- The bytes that an attempt put on its connection. -/
def Turn.put (turn : Turn (Tap σ)) : List UInt8 :=
  (sentOn turn.after).drop (sentOn turn.before).length

/-- The bytes that an attempt read from its connection. -/
def Turn.got (turn : Turn (Tap σ)) : List UInt8 :=
  (readOn turn.after).drop (readOn turn.before).length

/-- The bytes are a complete reply: a header, and as many bytes behind it as it
announces. -/
def IsReply (core : Core) (header : RequestResponseHeader) (payload bs : List UInt8) : Prop :=
  bs = header.bytes ++ payload ∧ header.size core = 8 + payload.length

theorem record_apply (m : Meanwhile σ) (s : Session (Tap σ)) :
    (m.tap.apply s).sock.sent = s.sock.sent ∧ (m.tap.apply s).sock.read = s.sock.read := by
  unfold Meanwhile.apply Session.forceShutdown
  split
  · split <;> exact ⟨rfl, rfl⟩
  · exact ⟨rfl, rfl⟩

theorem record_close (s : Session (Tap σ)) :
    s.close.sock.sent = s.sock.sent ∧ s.close.sock.read = s.sock.read := by
  obtain ⟨isOpen, active, sock⟩ := s
  cases isOpen <;> cases active <;> exact ⟨rfl, rfl⟩

/-- What the receiving part of an attempt does when it reads `bs` and answers
`rc`: `1` with a complete reply, whose payload is put into its place, or `-1`
with something else. -/
inductive Receives (core : Core) (result : InterfaceQueryResult) (bs : List UInt8) :
    Int → InterfaceQueryResult → Prop where
  | complete (header : RequestResponseHeader) (payload : List UInt8)
      (hreply : IsReply core header payload bs) :
      Receives core result bs 1
        { replyData := overwrite (resize result.replyData (8 + payload.length)) 8 payload
          valid := true }
  | incomplete (result' : InterfaceQueryResult) (hvalid : result'.valid = result.valid)
      (hreply : ∀ header payload, IsReply core header payload bs → payload = []) :
      Receives core result bs (-1) result'

theorem isReply_header {core : Core} {header header' : RequestResponseHeader}
    {payload bs : List UInt8} (h : IsReply core header' payload (header.bytes ++ bs)) :
    header' = header ∧ payload = bs := by
  obtain ⟨happend, -⟩ := h
  obtain ⟨hheader, hpayload⟩ := List.append_inj happend
    (by rw [header.length_bytes, header'.length_bytes])
  exact ⟨RequestResponseHeader.ext hheader.symm, hpayload.symm⟩

theorem record_receivePayload (core : Core) (s : Session (Tap σ))
    (header : RequestResponseHeader) (env : Conditions σ) (result : InterfaceQueryResult) :
    (receivePayload core s header env.tap result).2.2.sock.sent = s.sock.sent ∧
      (receivePayload core s header env.tap result).2.2.sock.read =
        s.sock.read ++ payloadDelivered core s header env.tap ∧
      Receives core result (header.bytes ++ payloadDelivered core s header env.tap)
        (receivePayload core s header env.tap result).1
        (receivePayload core s header env.tap result).2.1 := by
  obtain ⟨hsent, hread⟩ := record_apply env.beforePayload s
  obtain ⟨hsent', hread'⟩ := Session.record_receive (env.beforePayload.tap.apply s)
    (header.size core - RequestResponseHeader.sizeOf)
  rw [hsent] at hsent'
  rw [hread] at hread'
  unfold receivePayload payloadDelivered
  simp only
  by_cases hsize : header.size core < RequestResponseHeader.sizeOf
  · -- a size below eight announces no reply
    rw [if_pos hsize, if_pos hsize]
    refine ⟨(record_close s).1, by rw [(record_close s).2, List.append_nil], ?_⟩
    refine .incomplete _ rfl fun header' payload hreply => ?_
    exact (isReply_header hreply).2
  · have hsize' : 8 ≤ header.size core := Nat.not_lt.mp hsize
    rw [if_neg hsize, if_neg hsize, show env.tap.beforePayload = env.beforePayload.tap from rfl]
    generalize (env.beforePayload.tap.apply s).receive
      (header.size core - RequestResponseHeader.sizeOf) = out at hsent' hread' ⊢
    split
    · rename_i hret
      refine ⟨by rw [(record_close _).1, hsent'], by rw [(record_close _).2, hread'], ?_⟩
      refine .incomplete _ rfl fun header' payload hreply => ?_
      obtain ⟨rfl, rfl⟩ := isReply_header hreply
      have hlen := hreply.2
      cases hreceived : out.1 with
      | failed => rfl
      | got bs =>
        rw [hreceived] at hret hlen
        simp only [Received.ret, Received.bytes, RequestResponseHeader.sizeOf] at hret hlen
        omega
    · rename_i hret
      have happly := record_apply env.afterReply out.2
      refine ⟨happly.1.trans hsent', happly.2.trans hread', ?_⟩
      have hlen : header.size core = 8 + out.1.bytes.length := by
        cases hreceived : out.1 with
        | failed =>
          rw [hreceived] at hret
          simp only [Received.ret] at hret
          omega
        | got bs =>
          rw [hreceived] at hret
          simp only [Received.ret, Received.bytes, RequestResponseHeader.sizeOf] at hret ⊢
          omega
      rw [hlen]
      exact .complete header out.1.bytes ⟨rfl, hlen⟩

theorem record_receiveReply (core : Core) (s : Session (Tap σ)) (env : Conditions σ)
    (result : InterfaceQueryResult) :
    (receiveReply core s env.tap result).2.2.sock.sent = s.sock.sent ∧
      (receiveReply core s env.tap result).2.2.sock.read =
        s.sock.read ++ replyDelivered core s env.tap ∧
      Receives core result (replyDelivered core s env.tap)
        (receiveReply core s env.tap result).1 (receiveReply core s env.tap result).2.1 := by
  obtain ⟨hsent, hread⟩ := record_apply env.beforeHeader s
  obtain ⟨hsent', hread'⟩ := Session.record_receiveExact (env.beforeHeader.tap.apply s)
    RequestResponseHeader.sizeOf
  have hle := Session.length_receiveLoop_le RequestResponseHeader.sizeOf
    (env.beforeHeader.tap.apply s) RequestResponseHeader.sizeOf [] (Nat.zero_le _)
  change ((env.beforeHeader.tap.apply s).receiveExact _).1.bytes.length ≤ _ at hle
  rw [hsent] at hsent'
  rw [hread] at hread'
  unfold receiveReply replyDelivered
  rw [show env.tap.beforeHeader = env.beforeHeader.tap from rfl]
  generalize (env.beforeHeader.tap.apply s).receiveExact RequestResponseHeader.sizeOf = out
    at hsent' hread' hle ⊢
  by_cases hlen : out.1.bytes.length = 8
  · simp only [RequestResponseHeader.ofBytes?_eq_some hlen]
    obtain ⟨hsent'', hread'', hreceives⟩ :=
      record_receivePayload core out.2 ⟨out.1.bytes, hlen⟩ env result
    refine ⟨hsent''.trans hsent', ?_, hreceives⟩
    rw [hread'', hread', List.append_assoc]
  · simp only [RequestResponseHeader.ofBytes?_eq_none hlen, List.append_nil]
    refine ⟨hsent', hread', .incomplete _ rfl fun header payload hreply => ?_⟩
    -- a complete reply is at least eight bytes long
    have hlength := congrArg List.length hreply.1
    rw [List.length_append, header.length_bytes] at hlength
    rw [RequestResponseHeader.sizeOf] at hle
    omega

/-- What an attempt does to the record of its session when it answers `rc`: it
sends a proper prefix of the query and is retried, or it sends the query and
receives. -/
inductive Exchanges (core : Core) (query : List UInt8) (env : Conditions (Tap σ))
    (result : InterfaceQueryResult) (s s' : Session (Tap σ)) :
    Int → InterfaceQueryResult → Prop where
  | retried (done : List UInt8) (htakes : ¬ Takes query env s) (hpart : done <+: query)
      (hne : done ≠ query) (hsent : s'.sock.sent = s.sock.sent ++ done) :
      Exchanges core query env result s s' 0 result
  | received (rc : Int) (result' : InterfaceQueryResult) (htakes : Takes query env s)
      (hsent : s'.sock.sent = s.sock.sent ++ query)
      (hread : s'.sock.read = s.sock.read ++ delivered core query env s)
      (hreceives : Receives core result (delivered core query env s) rc result') :
      Exchanges core query env result s s' rc result'

theorem record_exchange (core : Core) (s : Session (Tap σ)) {query : List UInt8}
    (hquery : query ≠ []) (env : Conditions σ) (result : InterfaceQueryResult) :
    Exchanges core query env.tap result s (exchange core s query env.tap result).2.2
      (exchange core s query env.tap result).1 (exchange core s query env.tap result).2.1 := by
  obtain ⟨hsent, hread⟩ := record_apply env.beforeCheck s
  unfold exchange
  simp only
  split
  · rename_i hinactive
    refine .retried [] ?_ List.nil_prefix hquery.symm (hsent.trans (List.append_nil _).symm)
    intro htakes
    simp [Session.isActive, htakes.1] at hinactive
  · rename_i hactive
    obtain ⟨hsent', hread'⟩ := record_apply env.beforeSend (env.tap.beforeCheck.apply s)
    obtain ⟨hread'', done, hpart, hsent'', hall⟩ := Session.record_sendData
      (env.tap.beforeSend.apply (env.tap.beforeCheck.apply s)) hquery
    replace hread'' := hread''.trans (hread'.trans hread)
    replace hsent'' := hsent''.trans (congrArg (· ++ done) (hsent'.trans hsent))
    split
    · rename_i hok
      obtain ⟨hreply, hbs, hreceives⟩ := record_receiveReply core
        ((env.tap.beforeSend.apply (env.tap.beforeCheck.apply s)).sendData query).2 env result
      refine .received _ _ ⟨by simpa [Session.isActive] using hactive, hok⟩ ?_ ?_ hreceives
      · rw [hreply, hsent'', hall.mp hok]
      · rw [hbs, hread'']
        rfl
    · rename_i hok
      refine .retried done (fun htakes => hok htakes.2) hpart (fun h => hok (hall.mpr h)) ?_
      rw [(record_close _).1, hsent'']

/-! ## The record changes nothing -/

/-- An attempt without the record. -/
def Turn.forget (turn : Turn (Tap σ)) : Turn σ where
  rc := turn.rc
  before := turn.before.map Session.forget
  after := turn.after.map Session.forget

/-- An outcome without the record. -/
def Outcome.forget (out : Outcome (Tap σ)) : Outcome σ where
  returned := out.returned
  result := out.result
  session := out.session.map Session.forget
  turns := out.turns.map Turn.forget

theorem forget_apply (m : Meanwhile σ) (s : Session (Tap σ)) :
    m.apply s.forget = (m.tap.apply s).forget := by
  unfold Meanwhile.apply
  rw [show m.tap.shutdown = m.shutdown from rfl]
  split
  · rw [← Session.forget_forceShutdown]
    rfl
  · rfl

omit [Socket σ] in
theorem forget_connect (session : Option (Session (Tap σ))) (env : Conditions σ) :
    connect (session.map Session.forget) env =
      ((connect session env.tap).1, (connect session env.tap).2.map Session.forget) := by
  have hreconnect : reconnect env =
      ((reconnect env.tap).1, (reconnect env.tap).2.map Session.forget) := by
    unfold reconnect Conditions.tap
    cases env.connected with
    | none => rfl
    | some sock => cases env.setTimeout <;> rfl
  cases session with
  | none => exact hreconnect
  | some s =>
    by_cases hactive : s.active = true
    · rw [show connect (some s) env.tap = (true, some s) from if_pos hactive]
      exact if_pos hactive
    · rw [show connect (some s) env.tap = reconnect env.tap from if_neg hactive]
      exact (if_neg hactive).trans hreconnect

theorem forget_receivePayload (core : Core) (s : Session (Tap σ))
    (header : RequestResponseHeader) (env : Conditions σ) (result : InterfaceQueryResult) :
    receivePayload core s.forget header env result =
      ((receivePayload core s header env.tap result).1,
        (receivePayload core s header env.tap result).2.1,
        (receivePayload core s header env.tap result).2.2.forget) := by
  unfold receivePayload
  simp only [forget_apply, Session.forget_receive, Session.forget_close]
  rw [show env.tap.beforePayload = env.beforePayload.tap from rfl,
    show env.tap.afterReply = env.afterReply.tap from rfl]
  split
  · rfl
  · split <;> rfl

theorem forget_exchange (core : Core) (s : Session (Tap σ)) (query : List UInt8)
    (env : Conditions σ) (result : InterfaceQueryResult) :
    exchange core s.forget query env result =
      ((exchange core s query env.tap result).1, (exchange core s query env.tap result).2.1,
        (exchange core s query env.tap result).2.2.forget) := by
  unfold exchange receiveReply
  simp only [forget_apply, Session.forget_sendData, Session.forget_receiveExact,
    Session.forget_close, forget_receivePayload]
  rw [show env.tap.beforeCheck = env.beforeCheck.tap from rfl,
    show env.tap.beforeSend = env.beforeSend.tap from rfl,
    show env.tap.beforeHeader = env.beforeHeader.tap from rfl,
    show (env.beforeCheck.tap.apply s).forget.isActive =
      (env.beforeCheck.tap.apply s).isActive from rfl]
  split
  · rfl
  · split
    · split <;> rfl
    · rfl

theorem forget_sendAndReceive (core : Core) (session : Option (Session (Tap σ)))
    (query : List UInt8) (env : Conditions σ) (result : InterfaceQueryResult) :
    sendAndReceive core (session.map Session.forget) query env result =
      ((sendAndReceive core session query env.tap result).1,
        (sendAndReceive core session query env.tap result).2.1,
        (sendAndReceive core session query env.tap result).2.2.map Session.forget) := by
  cases session with
  | none => rfl
  | some s =>
    simp only [Option.map_some, sendAndReceive, forget_exchange]

/-- The attempts on tapped sockets are the attempts on the sockets. -/
theorem forget_attemptLoop (core : Core) (query : List UInt8) (left : Nat)
    (envs : Nat → Conditions σ) (session : Option (Session (Tap σ)))
    (result : InterfaceQueryResult) :
    attemptLoop core query left envs (session.map Session.forget) result =
      (attemptLoop core query left (fun k => (envs k).tap) session result).forget := by
  induction left generalizing envs session result with
  | zero => rfl
  | succ left ih =>
    simp only [attemptLoop, forget_connect, forget_sendAndReceive]
    split
    · rfl
    · split
      · rfl
      · split
        · rfl
        · rw [ih]
          rfl

end Retries

end OracleMachine.Node
