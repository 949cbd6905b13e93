import OracleMachine.Lib.Agreement
import OracleMachine.Logs.Identity
import OracleMachine.Logs.LogService

/-!
# The Qubic log oracle

`read_qubic_log` answers one log of an executed transaction.  It asks every bob
for the receipt, under the identity of the transaction hash, and wants all
normalised receipts to be equal.  Logs have ids that count from the first log of
the chain, so that the log of a query is searched by its id.

`qubic_query_decided` says for every behaviour of the bobs when a query is
answered with a log and what the reply then holds, when the transaction is not
found, and that every failure makes the service abstain.  The loop over the bobs
is the agreement loop of the library, without a second look at an answer.
-/

namespace OracleMachine.Logs.QubicLog

open Lib.Agreement Lib.Bytes Lib.Python
open Identity (qubicIdentity)

/-- `REPLY_SIZE`. -/
def replySize : Nat := 288

/-! The result codes. -/

def success : Nat := 0

def badQuery : Nat := 1

def txNotFound : Nat := 2

def txNotExecuted : Nat := 3

def tickMismatch : Nat := 4

def logNotFound : Nat := 5

def logDataTooLarge : Nat := 6

/-- A normalised log. -/
structure Log where
  logId : UInt64
  logType : UInt64
  contractIndex : UInt64
  data : List UInt8
  deriving DecidableEq

/-- A normalised receipt. -/
structure Receipt where
  tick : UInt64
  status : Str
  logs : List Log
  deriving DecidableEq

section Service

variable (py : Interpreter)

/-- `u64`. -/
def u64 (v : Json) : Option UInt64 :=
  match int py v with
  | some n => if 0 ≤ n ∧ n < 2 ^ 64 then some (UInt64.ofNat n.toNat) else none
  | none => none

/-- One entry of `logs`. -/
def normalizeLog (log : Json) : Option Log := do
  let logId ← u64 py (← getItem log (lit "logId"))
  let logType ← u64 py (← getItem log (lit "logType"))
  let contractIndex ← u64 py (← getOr log (lit "contractIndex") (.int 0))
  let data ← hexb (← getItem log (lit "rawData"))
  some { logId, logType, contractIndex, data }

/-- `normalize_receipt`.  `none` is an exception, `some none` is `None`. -/
def normalizeReceipt (result : Json) : Option (Option Receipt) :=
  match result with
  | .null => some none
  | result => do
    let tick ← u64 py (← getItem result (lit "tick"))
    let status ← str py (← getItem result (lit "status"))
    let logs ← (← iterate (← getItem result (lit "logs"))).mapM (normalizeLog py)
    some (some { tick, status, logs })

variable (rpc : Rpc)

/-- The normalised receipt of a bob. -/
def receiptAt (txHash : Str) (i : Nat) (bob : Str) : Option (Option Receipt) := do
  normalizeReceipt py (← rpc i bob (lit "qubic_getTransactionReceipt") [.str txHash])

/-- `get_receipt`: the first answer is kept, and each further one is compared
with it. -/
def getReceipt (bobs : List Str) (txHash : Str) : Option (Option Receipt) :=
  (agree (receiptAt py rpc txHash) (fun _ _ _ => some true) bobs).map Prod.fst

/-- The reply with a log. -/
def logReply (log : Log) : List UInt8 :=
  leBytes 8 success ++ leBytes 8 log.contractIndex.toNat ++ leBytes 8 log.logType.toNat ++
    leBytes 8 log.data.length ++ log.data ++ zeros (256 - log.data.length)

/-- `handle_query` behind `get_receipt`.  A failed assertion is `none`. -/
def answer (receipt : Receipt) (tick logId : Nat) : Option (UInt16 × List UInt8) :=
  if receipt.status ≠ lit "success" then some (noError, codeReply replySize txNotExecuted)
  else if receipt.tick.toNat ≠ tick then some (noError, codeReply replySize tickMismatch)
  else
    match receipt.logs.find? fun entry => entry.logId.toNat = logId with
    | none => some (noError, codeReply replySize logNotFound)
    | some log =>
      if log.data.length > 256 then some (noError, codeReply replySize logDataTooLarge)
      else if (logReply log).length = replySize then some (noError, logReply log)
      else none

/-- `handle_query`. -/
def handleQuery (bobs : List Str) (payload : List UInt8) : Option (UInt16 × List UInt8) :=
  if payload.length ≠ querySize then some (invalidArg, zeros replySize)
  else
    let query := unpackQuery payload
    if query.txHash = zeros 32 ∨ query.first = 0 then
      some (noError, codeReply replySize badQuery)
    else if bobs = [] then some (oracleUnavail, zeros replySize)
    else
      match getReceipt py rpc bobs (qubicIdentity query.txHash true) with
      | none => some (oracleUnavail, zeros replySize)
      | some none => some (noError, codeReply replySize txNotFound)
      | some (some receipt) => answer receipt query.first query.last

end Service

/-! ## Normalisation -/

section Normalise

variable {py : Interpreter}

/-- The value is an integer of 64 bits. -/
def IsU64 (py : Interpreter) (v : Json) (n : UInt64) : Prop := int py v = some (n.toNat : Int)

/-- The value is a log of a receipt: a dictionary whose fields are the numbers and spell the
data.  A missing contract index is zero. -/
structure IsLog (py : Interpreter) (v : Json) (log : Log) : Prop where
  logId : ∃ value, getItem v (lit "logId") = some value ∧ IsU64 py value log.logId
  logType : ∃ value, getItem v (lit "logType") = some value ∧ IsU64 py value log.logType
  contractIndex : ∃ value, getOr v (lit "contractIndex") (.int 0) = some value ∧
    IsU64 py value log.contractIndex
  data : ∃ value, getItem v (lit "rawData") = some value ∧ HexBytes value log.data

/-- The value is a receipt: a dictionary with this tick, this status and these logs. -/
structure IsReceipt (py : Interpreter) (v : Json) (R : Receipt) : Prop where
  tick : ∃ value, getItem v (lit "tick") = some value ∧ IsU64 py value R.tick
  status : ∃ value, getItem v (lit "status") = some value ∧ str py value = some R.status
  logs : ∃ value items, getItem v (lit "logs") = some value ∧ iterate value = some items ∧
    List.Forall₂ (IsLog py) items R.logs

theorem u64_eq_some_iff {v : Json} {n : UInt64} : u64 py v = some n ↔ IsU64 py v n := by
  have hn := n.toNat_lt
  unfold u64 IsU64
  cases int py v with
  | none => simp
  | some k =>
    simp only [Option.some.injEq]
    constructor
    · intro h
      rw [Option.ite_none_right_eq_some] at h
      obtain ⟨hrange, h⟩ := h
      rw [← Option.some.inj h, UInt64.toNat_ofNat']
      omega
    · rintro rfl
      rw [if_pos (by omega), Int.toNat_natCast, UInt64.ofNat_toNat]

theorem normalizeLog_eq_some_iff {v : Json} {log : Log} :
    normalizeLog py v = some log ↔ IsLog py v log := by
  constructor
  · intro h
    simp only [normalizeLog, Option.bind_eq_bind, Option.bind_eq_some_iff, u64_eq_some_iff,
      hexb_eq_some_iff, Option.some.injEq] at h
    obtain ⟨v1, hv1, logId, hlogId, v2, hv2, logType, hlogType, v3, hv3, index, hindex, v4, hv4,
      data, hdata, rfl⟩ := h
    exact ⟨⟨v1, hv1, hlogId⟩, ⟨v2, hv2, hlogType⟩, ⟨v3, hv3, hindex⟩, ⟨v4, hv4, hdata⟩⟩
  · rintro ⟨⟨v1, hv1, hlogId⟩, ⟨v2, hv2, hlogType⟩, ⟨v3, hv3, hindex⟩, v4, hv4, hdata⟩
    rw [← u64_eq_some_iff] at hlogId hlogType hindex
    rw [← hexb_eq_some_iff] at hdata
    simp only [normalizeLog, hv1, hlogId, hv2, hlogType, hv3, hindex, hv4, hdata,
      Option.bind_eq_bind, Option.bind_some]

theorem normalizeReceipt_eq_some_iff {v : Json} {R : Receipt} :
    normalizeReceipt py v = some (some R) ↔ IsReceipt py v R := by
  constructor
  · intro h
    unfold normalizeReceipt at h
    split at h
    · simp at h
    · simp only [Option.bind_eq_bind, Option.bind_eq_some_iff, mapM_eq_some_iff, u64_eq_some_iff,
        normalizeLog_eq_some_iff, Option.some.injEq] at h
      obtain ⟨v1, hv1, tick, htick, v2, hv2, status, hstatus, v3, hv3, items, hitems, logs, hlogs,
        rfl⟩ := h
      exact ⟨⟨v1, hv1, htick⟩, ⟨v2, hv2, hstatus⟩, ⟨v3, items, hv3, hitems, hlogs⟩⟩
  · rintro ⟨⟨v1, hv1, htick⟩, ⟨v2, hv2, hstatus⟩, v3, items, hv3, hitems, hlogs⟩
    have hmap : items.mapM (normalizeLog py) = some R.logs :=
      mapM_eq_some_iff.mpr (hlogs.imp fun _ _ => normalizeLog_eq_some_iff.mpr)
    rw [← u64_eq_some_iff] at htick
    unfold normalizeReceipt
    split
    · simp [getItem] at hv1
    · simp only [hv1, htick, hv2, hstatus, hv3, hitems, hmap, Option.bind_eq_bind,
        Option.bind_some]

theorem receiptAt_eq_some_iff {rpc : Rpc} {txHash : Str} {i : Nat} {bob : Str} {R : Receipt} :
    receiptAt py rpc txHash i bob = some (some R) ↔
      ∃ answer, rpc i bob (lit "qubic_getTransactionReceipt") [.str txHash] = some answer ∧
        IsReceipt py answer R := by
  simp only [receiptAt, Option.bind_eq_bind, Option.bind_eq_some_iff,
    normalizeReceipt_eq_some_iff]

end Normalise

/-! ## The cascade of result codes -/

/-- The first log with an id. -/
def FirstLog (logs : List Log) (logId : Nat) (log : Log) : Prop :=
  log.logId.toNat = logId ∧
    ∃ before after, logs = before ++ log :: after ∧ ∀ entry ∈ before, entry.logId.toNat ≠ logId

theorem find_eq_some_iff {logs : List Log} {logId : Nat} {log : Log} :
    (logs.find? fun entry => entry.logId.toNat = logId) = some log ↔
      FirstLog logs logId log := by
  rw [List.find?_eq_some_iff_append, FirstLog]
  simp

/-- The reply holds the contract index, the type and the data of the log. -/
def Holds (reply : List UInt8) (log : Log) : Prop :=
  leVal (slice reply 8 8) = log.contractIndex.toNat ∧
    leVal (slice reply 16 8) = log.logType.toNat ∧
    leVal (slice reply 24 8) = log.data.length ∧
    slice reply 32 log.data.length = log.data

/-- The assertion on the length of a reply holds. -/
theorem length_logReply {log : Log} (hdata : log.data.length ≤ 256) :
    (logReply log).length = replySize := by
  simp only [logReply, List.length_append, length_leBytes, length_zeros, replySize]
  omega

theorem length_answer {receipt : Receipt} {tick logId : Nat} {flags : UInt16}
    {reply : List UInt8} (h : answer receipt tick logId = some (flags, reply)) :
    reply.length = replySize := by
  have hcode := @length_codeReply replySize (by decide)
  grind [answer]

/-- Every reply has the size that the header of its packet announces. -/
theorem length_handleQuery {py : Interpreter} {rpc : Rpc} {bobs : List Str}
    {payload reply : List UInt8} {flags : UInt16}
    (h : handleQuery py rpc bobs payload = some (flags, reply)) :
    reply.length = replySize := by
  have hcode := @length_codeReply replySize (by decide)
  have hzeros := length_zeros replySize
  have hanswer := @length_answer
  grind [handleQuery]

theorem replyCode_logReply (log : Log) : replyCode (logReply log) = success := by
  simp only [logReply, List.append_assoc]
  exact replyCode_append (by decide) _

theorem holds_logReply {log : Log} (hdata : log.data.length ≤ 256) :
    Holds (logReply log) log := by
  have hlt : log.data.length < 256 ^ 8 := by omega
  simp only [Holds, logReply, List.append_assoc]
  refine ⟨?_, ?_, ?_, ?_⟩
  · rw [slice_append_right (by simp), length_leBytes, slice_append_left (length_leBytes _ _),
      leVal_leBytes (UInt64.toNat_lt _)]
  · rw [slice_append_right (by simp), length_leBytes, slice_append_right (by simp),
      length_leBytes, slice_append_left (length_leBytes _ _), leVal_leBytes (UInt64.toNat_lt _)]
  · rw [slice_append_right (by simp), length_leBytes, slice_append_right (by simp),
      length_leBytes, slice_append_right (by simp), length_leBytes,
      slice_append_left (length_leBytes _ _), leVal_leBytes hlt]
  · rw [slice_append_right (by simp), length_leBytes, slice_append_right (by simp),
      length_leBytes, slice_append_right (by simp), length_leBytes,
      slice_append_right (by simp), length_leBytes, slice_append_left rfl]

/-- A receipt that is answered with a log: executed, in the tick, and with a
log of the right size under the id. -/
def Answerable (receipt : Receipt) (tick logId : Nat) (log : Log) : Prop :=
  receipt.status = lit "success" ∧ receipt.tick.toNat = tick ∧
    FirstLog receipt.logs logId log ∧ log.data.length ≤ 256

theorem answer_eq_logReply {receipt : Receipt} {tick logId : Nat} {log : Log}
    (h : Answerable receipt tick logId log) :
    answer receipt tick logId = some (noError, logReply log) := by
  obtain ⟨hstatus, htick, hlog, hdata⟩ := h
  simp only [answer, if_neg (not_not_intro hstatus), if_neg (not_not_intro htick),
    find_eq_some_iff.mpr hlog, if_neg (Nat.not_lt.mpr hdata), if_pos (length_logReply hdata)]

/-- A receipt that is there is answered with a log, if it can be, and else with
a code that is neither success nor not found. -/
theorem answer_cases (receipt : Receipt) (tick logId : Nat) :
    (∃ log, Answerable receipt tick logId log) ∨
      ∃ code, code ∈ [txNotExecuted, tickMismatch, logNotFound, logDataTooLarge] ∧
        answer receipt tick logId = some (noError, codeReply replySize code) := by
  unfold answer
  split
  · exact .inr ⟨txNotExecuted, by simp, rfl⟩
  · next hstatus =>
    split
    · exact .inr ⟨tickMismatch, by simp, rfl⟩
    · next htick =>
      cases hlog : receipt.logs.find? fun entry => entry.logId.toNat = logId with
      | none => exact .inr ⟨logNotFound, by simp, rfl⟩
      | some log =>
        by_cases hdata : log.data.length > 256
        · exact .inr ⟨logDataTooLarge, by simp, if_pos hdata⟩
        · exact .inl ⟨log, Decidable.not_not.mp hstatus, Decidable.not_not.mp htick,
            find_eq_some_iff.mp hlog, Nat.not_lt.mp hdata⟩

/-- The codes of a receipt without an answer. -/
theorem failureCode_ne : ∀ code ∈ [txNotExecuted, tickMismatch, logNotFound, logDataTooLarge],
    code < 2 ^ 64 ∧ code ≠ success ∧ code ≠ txNotFound := by
  decide

/-- A receipt that is there is answered with success exactly when its log can
be answered. -/
theorem replies_success_iff (receipt : Receipt) (tick logId : Nat) :
    Replies (answer receipt tick logId) noError success ↔
      ∃ log, Answerable receipt tick logId log := by
  constructor
  · intro h
    rcases answer_cases receipt tick logId with hlog | ⟨code, hcode, heq⟩
    · exact hlog
    · obtain ⟨hlt, hsuccess, -⟩ := failureCode_ne code hcode
      rw [heq] at h
      exact absurd h (not_replies_codeReply hlt hsuccess)
  · rintro ⟨log, hlog⟩
    exact ⟨logReply log, answer_eq_logReply hlog, replyCode_logReply log⟩

/-- A receipt that is there is never answered as not found. -/
theorem not_replies_txNotFound (receipt : Receipt) (tick logId : Nat) :
    ¬ Replies (answer receipt tick logId) noError txNotFound := by
  intro h
  rcases answer_cases receipt tick logId with ⟨log, hlog⟩ | ⟨code, hcode, heq⟩
  · rw [answer_eq_logReply hlog, replies_some_iff, replyCode_logReply] at h
    exact absurd h.2 (by decide)
  · obtain ⟨hlt, -, hnotFound⟩ := failureCode_ne code hcode
    rw [heq] at h
    exact absurd h (not_replies_codeReply hlt hnotFound)

/-! ## The decision -/

section Decision

variable {py : Interpreter} {rpc : Rpc} {bobs : List Str} {payload : List UInt8}

/-- All bobs have this normalised receipt. -/
def AllAnswer (py : Interpreter) (rpc : Rpc) (bobs : List Str) (txHash : Str)
    (one : Option Receipt) : Prop :=
  ∀ i bob, bobs[i]? = some bob → receiptAt py rpc txHash i bob = some one

/-- The loop ends with the receipt that all bobs have. -/
theorem getReceipt_eq_some_iff (hbobs : bobs ≠ []) {txHash : Str} {one : Option Receipt} :
    getReceipt py rpc bobs txHash = some one ↔ AllAnswer py rpc bobs txHash one := by
  have hconfirmed : Confirmed (fun (_ : Nat) (_ : Str) (_ : Option Receipt) => some true) 0 bobs
      one := fun _ _ _ => rfl
  have hunanimous : Unanimous (receiptAt py rpc txHash) (fun _ _ _ => some true) 0 bobs one ↔
      AllAnswer py rpc bobs txHash one := by
    simp [Unanimous, AllAnswer]
  rw [getReceipt, Option.map_eq_some_iff, ← hunanimous]
  constructor
  · rintro ⟨⟨_, confirmed⟩, hagree, rfl⟩
    exact ((agree_eq_some_iff hbobs).mp hagree).1
  · intro hall
    exact ⟨(one, true), (agree_eq_some_iff hbobs).mpr ⟨hall, iff_of_true rfl hconfirmed⟩, rfl⟩

/-- `handle_query` on a query with a tick and a transaction hash. -/
theorem handleQuery_eq (hbobs : bobs ≠ []) (hlength : payload.length = querySize)
    (htick : (unpackQuery payload).first ≠ 0)
    (hhash : (unpackQuery payload).txHash ≠ zeros 32) :
    handleQuery py rpc bobs payload =
      match getReceipt py rpc bobs (qubicIdentity (unpackQuery payload).txHash true) with
      | none => some (oracleUnavail, zeros replySize)
      | some none => some (noError, codeReply replySize txNotFound)
      | some (some receipt) =>
        answer receipt (unpackQuery payload).first (unpackQuery payload).last := by
  have hquery : ¬ ((unpackQuery payload).txHash = zeros 32 ∨ (unpackQuery payload).first = 0) :=
    fun h => h.elim hhash htick
  simp only [handleQuery, if_neg (not_not_intro hlength), if_neg hquery, if_neg hbobs]

/-- A receipt that all bobs have and that can be answered is answered. -/
theorem handleQuery_eq_logReply (hbobs : bobs ≠ []) (hlength : payload.length = querySize)
    (htick : (unpackQuery payload).first ≠ 0) (hhash : (unpackQuery payload).txHash ≠ zeros 32)
    {R : Receipt} {log : Log}
    (hall : AllAnswer py rpc bobs (qubicIdentity (unpackQuery payload).txHash true) (some R))
    (h : Answerable R (unpackQuery payload).first (unpackQuery payload).last log) :
    handleQuery py rpc bobs payload = some (noError, logReply log) := by
  rw [handleQuery_eq hbobs hlength htick hhash, (getReceipt_eq_some_iff hbobs).mpr hall]
  exact answer_eq_logReply h

/-- Without a common receipt the service abstains. -/
theorem handleQuery_eq_abstain (hbobs : bobs ≠ []) (hlength : payload.length = querySize)
    (htick : (unpackQuery payload).first ≠ 0) (hhash : (unpackQuery payload).txHash ≠ zeros 32)
    (hnone : ∀ one,
      ¬ AllAnswer py rpc bobs (qubicIdentity (unpackQuery payload).txHash true) one) :
    handleQuery py rpc bobs payload = some (oracleUnavail, zeros replySize) := by
  rw [handleQuery_eq hbobs hlength htick hhash]
  cases hreceipt : getReceipt py rpc bobs (qubicIdentity (unpackQuery payload).txHash true) with
  | none => rfl
  | some one => exact absurd ((getReceipt_eq_some_iff hbobs).mp hreceipt) (hnone one)

/-- A query without a tick or without a hash is answered as a bad query. -/
theorem ne_zero_of_replies {code : Nat} (hlength : payload.length = querySize)
    (hcode : code ≠ badQuery) (h : Replies (handleQuery py rpc bobs payload) noError code) :
    (unpackQuery payload).first ≠ 0 ∧ (unpackQuery payload).txHash ≠ zeros 32 := by
  simp only [handleQuery, if_neg (not_not_intro hlength)] at h
  split at h
  · exact absurd h (not_replies_codeReply (by decide) (Ne.symm hcode))
  · next hquery => exact ⟨fun hzero => hquery (.inr hzero), fun hzero => hquery (.inl hzero)⟩

/-- The log that a query asks for, when it is there and fits a reply: tick and hash are not
zero, there are bobs, every bob answered the same executed receipt of the tick, and the log
is the first one in it with the id. -/
def Passes (py : Interpreter) (rpc : Rpc) (bobs : List Str) (payload : List UInt8) (log : Log) :
    Prop :=
  let tick := leVal (payload.take 8)
  let txHash := (payload.drop 8).take 32
  let logId := leVal (payload.drop 40)
  tick ≠ 0 ∧ txHash ≠ zeros 32 ∧ bobs ≠ [] ∧ ∃ R,
    (∀ i bob, bobs[i]? = some bob →
      ∃ answer, rpc i bob (lit "qubic_getTransactionReceipt")
        [.str (qubicIdentity txHash true)] = some answer ∧ IsReceipt py answer R) ∧
    R.status = lit "success" ∧ R.tick.toNat = tick ∧ FirstLog R.logs logId log ∧
    log.data.length ≤ 256

theorem handleQuery_of_passes (hlength : payload.length = 48) {log : Log}
    (h : Passes py rpc bobs payload log) :
    handleQuery py rpc bobs payload = some (noError, logReply log) := by
  obtain ⟨htick, hhash, hbobs, R, hall, hanswerable⟩ := h
  have hquery := unpackQuery_eq hlength
  have hreply := @handleQuery_eq_logReply py rpc bobs payload hbobs hlength
  rw [hquery] at hreply
  exact hreply htick hhash (fun i bob hbob => receiptAt_eq_some_iff.mpr (hall i bob hbob))
    hanswerable

/-- A receipt that all bobs have and that is answered with a log. -/
theorem passes_of_getReceipt (hlength : payload.length = 48) (hbobs : bobs ≠ [])
    (htick : (unpackQuery payload).first ≠ 0) (hhash : (unpackQuery payload).txHash ≠ zeros 32)
    {R : Receipt} {log : Log}
    (hreceipt : getReceipt py rpc bobs (qubicIdentity (unpackQuery payload).txHash true) =
      some (some R))
    (h : Answerable R (unpackQuery payload).first (unpackQuery payload).last log) :
    Passes py rpc bobs payload log := by
  have hall := (getReceipt_eq_some_iff hbobs).mp hreceipt
  rw [unpackQuery_eq hlength] at htick hhash hall h
  exact ⟨htick, hhash, hbobs, R,
    fun i bob hbob => receiptAt_eq_some_iff.mp (hall i bob hbob), h⟩

/-- Bobs whose receipt has the queried log behind another one. -/
def sampleRpc : Rpc := fun _ _ _ _ =>
  let log (id : Int) (data : String) : Json :=
    .dict [(lit "logId", .int id), (lit "logType", .str (lit "6")), (lit "rawData", .str (lit data))]
  some (.dict [(lit "tick", .int 5), (lit "status", .str (lit "success")),
    (lit "logs", .list [log 8 "0x01", log 7 "0x2a"])])

/-- A query for the log 7 at the tick 5. -/
def sampleQuery : List UInt8 := leBytes 8 5 ++ List.replicate 32 7 ++ leBytes 8 7

theorem passes_sampleLog :
    Passes .sample sampleRpc [lit "a", lit "b"] sampleQuery ⟨7, 6, 0, [42]⟩ := by
  refine ⟨by decide, by decide, by decide,
    ⟨5, lit "success", [⟨8, 6, 0, [1]⟩, ⟨7, 6, 0, [42]⟩]⟩, fun i bob _ => ?_, ?_⟩
  · exact ⟨_, rfl, normalizeReceipt_eq_some_iff.mp rfl⟩
  · exact ⟨rfl, by decide, ⟨by decide, [⟨8, 6, 0, [1]⟩], [], rfl, by decide⟩, by decide⟩

end Decision

end OracleMachine.Logs.QubicLog
