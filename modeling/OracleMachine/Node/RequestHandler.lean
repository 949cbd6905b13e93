import OracleMachine.Lib.Transition
import OracleMachine.Node.OracleCache

/-!
# Request handlers over the shared cache

`RequestHandler::handle` answers a query of a node from the cache or from the
interface client of the query.  Every node session has its own thread, and all
of them share one cache.  This module is the step machine of any number of
`handle` calls, cut where a call touches the cache or waits for its client:

* `arrive`: a call starts and makes its checks;
* `lookup i`: call `i` asks the cache, and on a miss looks for its client;
* `answer i reply`: the client of call `i` returns from `query`, with a reply
  or without;
* `store i`: call `i` stores its reply and returns.

What a client returns is the environment's choice.  So are `clear`,
`cleanInterface` and the order of the entries of the hash table.

Each call keeps what it asked its client and what came back, and the times at
which it stored or hit.  `Inv` says that every reply in the cache was received
by a finished call with the key of the entry, and `response_provenance` says
what a response can be.
-/

namespace OracleMachine.Node.RequestHandler

open Lib.Bytes Lib.TimedMap Lib.Transition
open Network.Wire
open OracleCache (CachedData Config Holds createKey)

/-! ## The pieces of `handle` -/

/-- `makeResponse`: a reply structure and the data.  The sizes of replies are
24-bit numbers, so that `data_size` holds the size as it is. -/
def makeResponse (queryId : UInt64) (errorFlags : UInt16) (data : List UInt8) : List UInt8 :=
  OracleMachineReply.toBytes
    { oracleQueryId := queryId, oracleMachineErrorFlags := errorFlags,
      padding0 := 0, padding1 := 0 } ++ data

/-- `makeErrorResponse`. -/
def makeErrorResponse (queryId : UInt64) (errorFlags : UInt16) : List UInt8 :=
  makeResponse queryId errorFlags []

/-- What a call hands to `InterfaceClient::query`: which client, the packet and
the timeout. -/
structure Request where
  interfaceIndex : UInt32
  queryData : List UInt8
  timeoutMs : Int32
  deriving DecidableEq

/-- Where a call is: before the lookup, in `InterfaceClient::query`, before the
store with the flags and the payload of the reply, or returned. -/
inductive Phase where
  | lookup
  | asking (request : Request)
  | storing (errorFlags : UInt16) (payload : List UInt8)
  | returned (response : List UInt8)
  deriving DecidableEq

/-- A call of `handle`: its arguments, where it is, what it asked its client
and what came back, and when it hit or stored. -/
structure Call where
  header : RequestResponseHeader
  payload : List UInt8
  phase : Phase
  exchange : Option (Request × Option (List UInt8))
  hitAt : Option Nat
  storedAt : Option Nat
  deriving DecidableEq

/-- `completePacket`. -/
def Call.completePacket (call : Call) : List UInt8 := call.header.bytes ++ call.payload

/-- `query`, copied out of the packet. -/
def Call.query (call : Call) : OracleMachineQuery :=
  OracleMachineQuery.ofBytes
    (slice call.completePacket RequestResponseHeader.sizeOf OracleMachineQuery.sizeOf)

/-- What the call asks its client. -/
def Call.request (call : Call) : Request where
  interfaceIndex := call.query.oracleInterfaceIndex
  queryData := call.completePacket
  timeoutMs := call.query.timeoutInMilliseconds.toInt32

/-- The checks at the start of `handle`. -/
def firstPhase (header : RequestResponseHeader) (payload : List UInt8) : Phase :=
  if header.type ≠ OracleMachineQuery.type then .returned []
  else if payload.length < OracleMachineQuery.sizeOf then .returned []
  else .lookup

/-- From the lookup to the call of the client. -/
def afterLookup (core : Core) (clients : UInt32 → Bool) (call : Call) :
    Option CachedData → Phase
  | some data =>
    .returned (makeResponse call.query.oracleQueryId data.errorFlag data.payload)
  | none =>
    if clients call.query.oracleInterfaceIndex then .asking call.request
    else .returned (makeErrorResponse call.query.oracleQueryId core.flagInvalidOracle)

/-- The reply structure inside a full reply packet. -/
def replyOf (replyFullData : List UInt8) : OracleMachineReply :=
  OracleMachineReply.ofBytes
    (slice replyFullData RequestResponseHeader.sizeOf OracleMachineReply.sizeOf)

/-- The payload behind it. -/
def replyPayload (replyFullData : List UInt8) : List UInt8 :=
  replyFullData.drop (RequestResponseHeader.sizeOf + OracleMachineReply.sizeOf)

/-- From the client's return to the store. -/
def afterQuery (core : Core) (query : OracleMachineQuery) : Option (List UInt8) → Phase
  | none => .returned (makeErrorResponse query.oracleQueryId core.flagOracleUnavail)
  | some replyFullData =>
    if replyFullData.length < OracleMachineReply.sizeOf + RequestResponseHeader.sizeOf then
      .returned (makeErrorResponse query.oracleQueryId core.flagOracleUnavail)
    else if (replyOf replyFullData).oracleQueryId ≠ query.oracleQueryId then
      .returned (makeErrorResponse query.oracleQueryId core.flagOracleUnavail)
    else
      .storing (replyOf replyFullData).oracleMachineErrorFlags (replyPayload replyFullData)

/-! ## The machine -/

/-- The shared cache and all calls. -/
structure State where
  cache : OracleCache
  calls : List Call

/-- The steps. -/
inductive Label where
  | arrive (header : RequestResponseHeader) (payload : List UInt8)
  | lookup (i : Nat)
  | answer (i : Nat) (reply : Option (List UInt8))
  | store (i : Nat)
  | clear
  | cleanInterface (interfaceIndex : UInt32)
  | rehash (storage : Map CacheKey CacheEntry)

section Machine

variable (core : Core) (clock : Clock) (config : Config) (clients : UInt32 → Bool)

/-- The node before the first request. -/
def init : State where
  cache := OracleCache.new clock
  calls := []

/-- Call `i`, which is at `call`, asks the cache.  The time of a hit is the
last reading of the lookup. -/
def lookupStep (s : State) (i : Nat) (call : Call) : State :=
  match OracleCache.lookup clock config s.cache call.query with
  | (cache, found) =>
    { cache
      calls := s.calls.set i
        { call with
          phase := afterLookup core clients call found
          hitAt := found.map fun _ => clock.read (cache.readings - 1) } }

/-- Call `i`, which is at `call`, hears from its client. -/
def answerStep (s : State) (i : Nat) (call : Call) (request : Request)
    (reply : Option (List UInt8)) : State :=
  { s with
    calls := s.calls.set i
      { call with
        phase := afterQuery core call.query reply
        exchange := some (request, reply) } }

/-- Call `i`, which is at `call`, stores its reply and returns. -/
def storeStep (s : State) (i : Nat) (call : Call) (errorFlags : UInt16)
    (payload : List UInt8) : State where
  cache := OracleCache.store clock config s.cache call.query payload errorFlags
  calls := s.calls.set i
    { call with
      phase := .returned (makeResponse call.query.oracleQueryId errorFlags payload)
      storedAt := some (clock.read s.cache.readings) }

/-- One step of the node. -/
def step (s : State) : Label → Option State
  | .arrive header payload =>
    some { s with
      calls := s.calls ++
        [{ header, payload, phase := firstPhase header payload, exchange := none,
           hitAt := none, storedAt := none }] }
  | .lookup i =>
    s.calls[i]?.bind fun call =>
      match call.phase with
      | .lookup => some (lookupStep core clock config clients s i call)
      | _ => none
  | .answer i reply =>
    s.calls[i]?.bind fun call =>
      match call.phase with
      | .asking request => some (answerStep core s i call request reply)
      | _ => none
  | .store i =>
    s.calls[i]?.bind fun call =>
      match call.phase with
      | .storing errorFlags payload =>
        some (storeStep clock config s i call errorFlags payload)
      | _ => none
  | .clear => some { s with cache := s.cache.clear }
  | .cleanInterface interfaceIndex =>
    some { s with cache := s.cache.cleanInterface interfaceIndex }
  | .rehash storage => (s.cache.rehash storage).map fun cache => { s with cache }

end Machine

/-! ## Where responses come from -/

/-- A call with the type of a query and room for its structure. -/
def Call.Accepted (call : Call) : Prop :=
  call.header.type = OracleMachineQuery.type ∧ OracleMachineQuery.sizeOf ≤ call.payload.length

/-- The client of the call's interface returned, to this call, a reply with the
call's query id and with these flags and this payload. -/
def Call.Received (call : Call) (errorFlags : UInt16) (payload : List UInt8) : Prop :=
  ∃ replyFullData,
    call.exchange = some (call.request, some replyFullData) ∧
    OracleMachineReply.sizeOf + RequestResponseHeader.sizeOf ≤ replyFullData.length ∧
    (replyOf replyFullData).oracleQueryId = call.query.oracleQueryId ∧
    (replyOf replyFullData).oracleMachineErrorFlags = errorFlags ∧
    replyPayload replyFullData = payload

/-- The response is a reply structure with this id, these flags and no padding
bits set, followed by the data. -/
def Carries (response : List UInt8) (queryId : UInt64) (errorFlags : UInt16)
    (data : List UInt8) : Prop :=
  response.length = OracleMachineReply.sizeOf + data.length ∧
  OracleMachineReply.ofBytes response = ⟨queryId, errorFlags, 0, 0⟩ ∧
  response.drop OracleMachineReply.sizeOf = data

/-- A finished call with this key received this payload without an error flag
and stored it at this time. -/
def Backed (calls : List Call) (key : CacheKey) (payload : List UInt8) (time : Nat) : Prop :=
  ∃ other ∈ calls, (∃ response, other.phase = .returned response) ∧ other.Accepted ∧
    createKey other.query = key ∧ other.Received 0 payload ∧ other.storedAt = some time

/-- What the flags and the data of a call's response can be: an error of this
call, the reply its client returned to it, or a reply that the cache got from a
call with the same key less than the time to live before. -/
def Provenance (config : Config) (calls : List Call) (call : Call) (errorFlags : UInt16)
    (data : List UInt8) : Prop :=
  (call.hitAt = none ∧ errorFlags ≠ 0 ∧ data = []) ∨
  (call.hitAt = none ∧ call.Received errorFlags data) ∨
  (errorFlags = 0 ∧ ∃ stored hit, Backed calls (createKey call.query) data stored ∧
    call.hitAt = some hit ∧ stored ≤ hit ∧ hit - stored < config.ttlSeconds.toNat * 10 ^ 9)

theorem carries_makeResponse (queryId : UInt64) (errorFlags : UInt16) (data : List UInt8) :
    Carries (makeResponse queryId errorFlags data) queryId errorFlags data := by
  refine ⟨?_, OracleMachineReply.ofBytes_toBytes_append _ _, ?_⟩
  · rw [makeResponse, List.length_append, OracleMachineReply.length_toBytes,
      OracleMachineReply.sizeOf]
  · rw [makeResponse, List.drop_append_of_le_length (by simp [OracleMachineReply.sizeOf]),
      List.drop_of_length_le (by simp [OracleMachineReply.sizeOf]), List.nil_append]

theorem Carries.ne_nil {response : List UInt8} {queryId : UInt64} {errorFlags : UInt16}
    {data : List UInt8} (h : Carries response queryId errorFlags data) : response ≠ [] := by
  rintro rfl
  have hlength := h.1
  rw [List.length_nil, OracleMachineReply.sizeOf] at hlength
  omega

/-! ## The invariant -/

/-- What holds of a call at its phase. -/
def CallOk (config : Config) (calls : List Call) (call : Call) : Prop :=
  match call.phase with
  | .lookup => call.Accepted
  | .asking request => call.Accepted ∧ call.hitAt = none ∧ request = call.request
  | .storing errorFlags payload =>
    call.Accepted ∧ call.hitAt = none ∧ call.Received errorFlags payload
  | .returned response =>
    call.Accepted → ∃ errorFlags data,
      Carries response call.query.oracleQueryId errorFlags data ∧
      Provenance config calls call errorFlags data

/-- Every entry of the cache is backed by a call, and every call is where it
should be. -/
structure Inv (clock : Clock) (config : Config) (s : State) : Prop where
  cached : ∀ key payload errorFlag timeStamp,
    Holds s.cache key payload errorFlag timeStamp →
      errorFlag = 0 ∧ timeStamp ≤ clock.read s.cache.readings ∧
        Backed s.calls key payload timeStamp
  calls : ∀ call ∈ s.calls, CallOk config s.calls call

variable {core : Core} {clock : Clock} {config : Config} {clients : UInt32 → Bool}

/-- The finished calls of the first list are in the second one. -/
def KeepsFinished (calls calls' : List Call) : Prop :=
  ∀ call ∈ calls, ∀ response, call.phase = .returned response → call ∈ calls'

theorem Backed.mono {calls calls' : List Call} {key : CacheKey} {payload : List UInt8}
    {time : Nat} (hkeep : KeepsFinished calls calls') (h : Backed calls key payload time) :
    Backed calls' key payload time := by
  obtain ⟨other, hmem, ⟨response, hphase⟩, hrest⟩ := h
  exact ⟨other, hkeep other hmem response hphase, ⟨response, hphase⟩, hrest⟩

theorem CallOk.mono {calls calls' : List Call} {call : Call}
    (hkeep : KeepsFinished calls calls') (h : CallOk config calls call) :
    CallOk config calls' call := by
  unfold CallOk at h ⊢
  split at h <;> try exact h
  intro haccepted
  obtain ⟨errorFlags, data, hcarries, hprov⟩ := h haccepted
  refine ⟨errorFlags, data, hcarries, ?_⟩
  rcases hprov with herror | hown | ⟨hzero, stored, hit, hbacked, htimes⟩
  · exact .inl herror
  · exact .inr (.inl hown)
  · exact .inr (.inr ⟨hzero, stored, hit, hbacked.mono hkeep, htimes⟩)

/-- A step that only takes from the cache keeps the invariant. -/
theorem Inv.of_holds {s : State} (h : Inv clock config s) {cache : OracleCache}
    (hreadings : s.cache.readings ≤ cache.readings)
    (hholds : ∀ key payload errorFlag timeStamp,
      Holds cache key payload errorFlag timeStamp →
        Holds s.cache key payload errorFlag timeStamp) :
    Inv clock config { s with cache } where
  cached := by
    intro key payload errorFlag timeStamp hheld
    obtain ⟨hzero, htime, hbacked⟩ := h.cached _ _ _ _ (hholds _ _ _ _ hheld)
    exact ⟨hzero, htime.trans (clock.mono hreadings), hbacked⟩
  calls := h.calls

/-- Moving one unfinished call on leaves the finished ones. -/
theorem keepsFinished_set {calls : List Call} {i : Nat} {call : Call}
    (hcall : calls[i]? = some call) (hopen : ∀ response, call.phase ≠ .returned response)
    (call' : Call) : KeepsFinished calls (calls.set i call') := by
  intro other hmem response hphase
  obtain ⟨j, hj⟩ := List.mem_iff_getElem?.mp hmem
  have hne : i ≠ j := by
    rintro rfl
    rw [hcall] at hj
    obtain rfl := Option.some.inj hj
    exact hopen response hphase
  exact List.mem_iff_getElem?.mpr ⟨j, by rw [List.getElem?_set_ne hne, hj]⟩

/-- Moving one unfinished call on keeps the invariant, if the call is where it
should be and backs what is new in the cache. -/
theorem Inv.set_call {s : State} (h : Inv clock config s) {i : Nat} {call call' : Call}
    (hcall : s.calls[i]? = some call)
    (hopen : ∀ response, call.phase ≠ .returned response)
    (hok : CallOk config (s.calls.set i call') call') {cache : OracleCache}
    (hreadings : s.cache.readings ≤ cache.readings)
    (hholds : ∀ key payload errorFlag timeStamp,
      Holds cache key payload errorFlag timeStamp →
        Holds s.cache key payload errorFlag timeStamp ∨
        (errorFlag = 0 ∧ timeStamp ≤ clock.read cache.readings ∧
          Backed (s.calls.set i call') key payload timeStamp)) :
    Inv clock config { cache, calls := s.calls.set i call' } := by
  have hkeep := keepsFinished_set hcall hopen call'
  refine ⟨?_, ?_⟩
  · intro key payload errorFlag timeStamp hheld
    rcases hholds _ _ _ _ hheld with hold | hnew
    · obtain ⟨hzero, htime, hbacked⟩ := h.cached _ _ _ _ hold
      exact ⟨hzero, htime.trans (clock.mono hreadings), hbacked.mono hkeep⟩
    · exact hnew
  · intro other hmem
    rcases List.mem_or_eq_of_mem_set hmem with hmem | rfl
    · exact (h.calls other hmem).mono hkeep
    · exact hok

theorem inv_init : Inv clock config (init clock) where
  cached := fun _ _ _ _ hheld => absurd hheld OracleCache.not_holds_new
  calls := fun _ hmem => absurd hmem List.not_mem_nil

theorem inv_arrive {s : State} (h : Inv clock config s) (call : Call)
    (hphase : call.phase = firstPhase call.header call.payload) :
    Inv clock config { s with calls := s.calls ++ [call] } := by
  have hkeep : KeepsFinished s.calls (s.calls ++ [call]) :=
    fun other hmem _ _ => List.mem_append_left _ hmem
  refine ⟨?_, ?_⟩
  · intro key payload errorFlag timeStamp hheld
    obtain ⟨hzero, htime, hbacked⟩ := h.cached _ _ _ _ hheld
    exact ⟨hzero, htime, hbacked.mono hkeep⟩
  · intro other hmem
    rcases List.mem_append.mp hmem with hmem | hmem
    · exact (h.calls other hmem).mono hkeep
    · obtain rfl := List.mem_singleton.mp hmem
      unfold CallOk
      rw [hphase, firstPhase]
      by_cases htype : other.header.type = OracleMachineQuery.type
      · rw [if_neg (not_not_intro htype)]
        by_cases hshort : other.payload.length < OracleMachineQuery.sizeOf
        · rw [if_pos hshort]
          exact fun haccepted => absurd haccepted.2 (Nat.not_le.mpr hshort)
        · rw [if_neg hshort]
          exact ⟨htype, Nat.not_lt.mp hshort⟩
      · rw [if_pos htype]
        exact fun haccepted => absurd haccepted.1 htype

/-- A call that asks the cache is afterwards where it should be. -/
theorem callOk_lookup {s : State} (h : Inv clock config s) {call : Call}
    (haccepted : call.Accepted) {calls : List Call} (hkeep : KeepsFinished s.calls calls)
    {cache : OracleCache} {found : Option CachedData}
    (hlookup : OracleCache.lookup clock config s.cache call.query = (cache, found)) :
    CallOk config calls
      { call with
        phase := afterLookup core clients call found
        hitAt := found.map fun _ => clock.read (cache.readings - 1) } := by
  cases found with
  | none =>
    simp only [CallOk, afterLookup]
    by_cases hclient : clients call.query.oracleInterfaceIndex
    · rw [if_pos hclient]
      exact ⟨haccepted, rfl, rfl⟩
    · rw [if_neg hclient]
      intro _
      exact ⟨core.flagInvalidOracle, [], carries_makeResponse _ _ _,
        .inl ⟨rfl, core.flagInvalidOracle_ne_zero, rfl⟩⟩
  | some data =>
    intro _
    obtain ⟨stored, last, hheld, hreadings, hle, hyoung⟩ :=
      OracleCache.lookup_hit hlookup
    obtain ⟨hzero, htime, hbacked⟩ := h.cached _ _ _ _ hheld
    refine ⟨data.errorFlag, data.payload, carries_makeResponse _ _ _, .inr (.inr ?_)⟩
    refine ⟨hzero, stored, clock.read last, hbacked.mono hkeep, ?_,
      htime.trans (clock.mono hle), hyoung⟩
    simp only [Option.map_some, hreadings, Nat.add_sub_cancel]

theorem inv_lookup {s : State} (h : Inv clock config s) {i : Nat} {call : Call}
    (hcall : s.calls[i]? = some call) (hphase : call.phase = .lookup) :
    Inv clock config (lookupStep core clock config clients s i call) := by
  have hopen : ∀ response, call.phase ≠ .returned response := by simp [hphase]
  have haccepted : call.Accepted := by
    have hok := h.calls call (List.mem_of_getElem? hcall)
    rwa [CallOk, hphase] at hok
  unfold lookupStep
  cases hlookup : OracleCache.lookup clock config s.cache call.query with
  | mk cache found =>
    refine h.set_call hcall hopen
      (callOk_lookup h haccepted (keepsFinished_set hcall hopen _) hlookup)
      (OracleCache.readings_lookup hlookup) ?_
    intro key payload errorFlag timeStamp hheld
    exact .inl (OracleCache.holds_lookup hlookup hheld)

/-- A call that hears from its client is afterwards where it should be. -/
theorem callOk_answer {call : Call} (haccepted : call.Accepted) (hmiss : call.hitAt = none)
    (calls : List Call) (reply : Option (List UInt8)) :
    CallOk config calls
      { call with
        phase := afterQuery core call.query reply
        exchange := some (call.request, reply) } := by
  have herror : CallOk config calls
      { call with
        phase := .returned (makeErrorResponse call.query.oracleQueryId core.flagOracleUnavail)
        exchange := some (call.request, reply) } := by
    intro _
    exact ⟨core.flagOracleUnavail, [], carries_makeResponse _ _ _,
      .inl ⟨hmiss, core.flagOracleUnavail_ne_zero, rfl⟩⟩
  cases reply with
  | none => exact herror
  | some replyFullData =>
    rw [afterQuery]
    split
    · exact herror
    · next hlong =>
      split
      · exact herror
      · next hid =>
        exact ⟨haccepted, hmiss, replyFullData, rfl, Nat.not_lt.mp hlong,
          Decidable.not_not.mp hid, rfl, rfl⟩

theorem inv_answer {s : State} (h : Inv clock config s) {i : Nat} {call : Call}
    {request : Request} (hcall : s.calls[i]? = some call)
    (hphase : call.phase = .asking request) (reply : Option (List UInt8)) :
    Inv clock config (answerStep core s i call request reply) := by
  have hok := h.calls call (List.mem_of_getElem? hcall)
  rw [CallOk, hphase] at hok
  obtain ⟨haccepted, hmiss, rfl⟩ := hok
  exact h.set_call hcall (by simp [hphase]) (callOk_answer haccepted hmiss _ reply)
    (Nat.le_refl _) (fun _ _ _ _ hheld => .inl hheld)

theorem inv_store {s : State} (h : Inv clock config s) {i : Nat} {call : Call}
    {errorFlags : UInt16} {payload : List UInt8} (hcall : s.calls[i]? = some call)
    (hphase : call.phase = .storing errorFlags payload) :
    Inv clock config (storeStep clock config s i call errorFlags payload) := by
  have hok := h.calls call (List.mem_of_getElem? hcall)
  rw [CallOk, hphase] at hok
  obtain ⟨haccepted, hmiss, hreceived⟩ := hok
  have hi : i < s.calls.length := (List.getElem?_eq_some_iff.mp hcall).1
  refine h.set_call hcall (by simp [hphase]) ?_ (OracleCache.readings_store _ _ _) ?_
  · intro _
    exact ⟨errorFlags, payload, carries_makeResponse _ _ _, .inr (.inl ⟨hmiss, hreceived⟩)⟩
  · intro key stored errorFlag timeStamp hheld
    rcases OracleCache.holds_store hheld with hold | ⟨rfl, rfl, rfl, rfl, rfl, hreadings⟩
    · exact .inl hold
    · -- the new entry is backed by this call
      refine .inr ⟨rfl, clock.mono (by omega), ?_⟩
      exact ⟨_, List.mem_set hi _, ⟨_, rfl⟩, haccepted, rfl, hreceived, rfl⟩

/-- Every step keeps the invariant. -/
theorem inv_step {s s' : State} {label : Label} (h : Inv clock config s)
    (hstep : step core clock config clients s label = some s') : Inv clock config s' := by
  cases label with
  | arrive header payload =>
    obtain rfl := Option.some.inj hstep
    exact inv_arrive h _ rfl
  | lookup i =>
    simp only [step, Option.bind_eq_some_iff] at hstep
    obtain ⟨call, hcall, hstep⟩ := hstep
    split at hstep
    · next hphase =>
      obtain rfl := Option.some.inj hstep
      exact inv_lookup h hcall hphase
    · cases hstep
  | answer i reply =>
    simp only [step, Option.bind_eq_some_iff] at hstep
    obtain ⟨call, hcall, hstep⟩ := hstep
    split at hstep
    · next hphase =>
      obtain rfl := Option.some.inj hstep
      exact inv_answer h hcall hphase reply
    · cases hstep
  | store i =>
    simp only [step, Option.bind_eq_some_iff] at hstep
    obtain ⟨call, hcall, hstep⟩ := hstep
    split at hstep
    · next hphase =>
      obtain rfl := Option.some.inj hstep
      exact inv_store h hcall hphase
    · cases hstep
  | clear =>
    obtain rfl := Option.some.inj hstep
    exact h.of_holds (Nat.le_refl _) fun _ _ _ _ hheld =>
      hheld.of_subset fun _ hmem => absurd hmem List.not_mem_nil
  | cleanInterface interfaceIndex =>
    obtain rfl := Option.some.inj hstep
    exact h.of_holds (Nat.le_refl _) fun _ _ _ _ hheld =>
      hheld.of_subset fun _ hmem => mem_sweep hmem
  | rehash storage =>
    simp only [step, OracleCache.rehash, Option.map_eq_some_iff] at hstep
    obtain ⟨cache, hcache, rfl⟩ := hstep
    split at hcache
    · next hperm =>
      obtain rfl := Option.some.inj hcache
      exact h.of_holds (Nat.le_refl _) fun _ _ _ _ hheld =>
        hheld.of_subset fun _ hmem => hperm.subset hmem
    · cases hcache

/-- A call that has not returned can always go on, whatever its client
returns. -/
theorem call_goes_on {s : State} {i : Nat} {call : Call} (hcall : s.calls[i]? = some call)
    (hopen : ∀ response, call.phase ≠ .returned response) (reply : Option (List UInt8)) :
    ∃ label ∈ [Label.lookup i, .answer i reply, .store i],
      (step core clock config clients s label).isSome := by
  cases hphase : call.phase with
  | lookup => exact ⟨.lookup i, by simp, by simp [step, hcall, hphase]⟩
  | asking request => exact ⟨.answer i reply, by simp, by simp [step, hcall, hphase]⟩
  | storing errorFlags payload => exact ⟨.store i, by simp, by simp [step, hcall, hphase]⟩
  | returned response => exact absurd hphase (hopen response)

/-- In every run, the response to a query is not empty and carries the id of
the query.  Its flags and data are an error of this call, the reply that the
client of the interface returned to this call, or a reply without an error flag
that a call with the same id and interface received and stored less than
`ttlSeconds` before the hit. -/
theorem response_provenance {labels : List Label} {s : State}
    (hrun : Runs (step core clock config clients) anyStep (init clock) labels s)
    {call : Call} (hcall : call ∈ s.calls)
    (htype : call.header.type = OracleMachineQuery.type)
    (hsize : OracleMachineQuery.sizeOf ≤ call.payload.length)
    {response : List UInt8} (hreturned : call.phase = .returned response) :
    response ≠ [] ∧
    ∃ errorFlags data, Carries response call.query.oracleQueryId errorFlags data ∧
      Provenance config s.calls call errorFlags data := by
  have hinv : Inv clock config s :=
    hrun.invariant (fun _ _ _ h _ hstep => inv_step h hstep) inv_init
  have hok := hinv.calls call hcall
  rw [CallOk, hreturned] at hok
  obtain ⟨errorFlags, data, hcarries, hprov⟩ := hok ⟨htype, hsize⟩
  exact ⟨hcarries.ne_nil, errorFlags, data, hcarries, hprov⟩

/-- Two sessions ask the same query; the second one asks the cache after the
first one has stored its reply. -/
def twoSessions : List Label :=
  let header : RequestResponseHeader := ⟨[24, 0, 0, 190, 0, 0, 0, 0], rfl⟩
  let payload := [7, 0, 0, 0, 0, 0, 0, 0, 2, 0, 0, 0, 0, 0, 0, 0]
  let reply := [25, 0, 0, 191, 0, 0, 0, 0] ++ makeResponse 7 0 [42]
  [.arrive header payload, .arrive header payload, .lookup 0, .answer 0 (some reply),
    .store 0, .lookup 1]

/-- The second of the two sessions is served from the cache. -/
theorem response_provenance_twoSessions :
    ∃ (s : State) (call : Call), s.calls[1]? = some call ∧ call.hitAt = some 4 ∧
      call.phase = .returned (makeResponse 7 0 [42]) ∧
      makeResponse 7 0 [42] ≠ [] ∧
      ∃ errorFlags data,
        Carries (makeResponse 7 0 [42]) call.query.oracleQueryId errorFlags data ∧
        Provenance {} s.calls call errorFlags data := by
  have hexec : (exec (step Core.sample ⟨id, monotone_id⟩ {} fun _ => true)
      (init ⟨id, monotone_id⟩) twoSessions).map (fun s => s.calls[1]?) =
      some (some
        { header := ⟨[24, 0, 0, 190, 0, 0, 0, 0], rfl⟩
          payload := [7, 0, 0, 0, 0, 0, 0, 0, 2, 0, 0, 0, 0, 0, 0, 0]
          phase := .returned (makeResponse 7 0 [42])
          exchange := none, hitAt := some 4, storedAt := none }) := by decide
  obtain ⟨s, hs, hcall⟩ := Option.map_eq_some_iff.mp hexec
  exact ⟨s, _, hcall, rfl, rfl,
    response_provenance (runs_of_exec (fun _ _ _ => trivial) hs) (List.mem_of_getElem? hcall)
      rfl (by decide) rfl⟩

end OracleMachine.Node.RequestHandler
