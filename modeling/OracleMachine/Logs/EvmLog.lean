import OracleMachine.Lib.Agreement
import OracleMachine.Logs.LogService

/-!
# The EVM log oracle

`read_evm_log` answers one log of a finalized transaction.  It asks every
configured endpoint of the chain for the receipt, normalises the receipts and
wants all of them to be equal.  Each endpoint that has a receipt is also asked
for its finalized head.  The outcome is a result code, or an error flag when the
service abstains.

`evm_query_decided` says for every behaviour of the endpoints when a query is
answered with a log, when the transaction is not found, and that every failure
makes the service abstain.  The argument has three parts: `getReceipt_eq_some_iff`
for the loop over the endpoints, which is the agreement loop of the library,
`replies_success_iff` for the cascade of result codes behind it, and
`normalizeReceipt_eq_some_iff` and `finalizedHead_eq_some_iff` for what the endpoints
answered: `IsReceipt` and `ReportsHead` describe that on the JSON.
-/

namespace OracleMachine.Logs.EvmLog

open Lib.Agreement Lib.Bytes Lib.Python

/-- `REPLY_SIZE`. -/
def replySize : Nat := 440

/-! The result codes. -/

def success : Nat := 0

def badQuery : Nat := 1

def chainUnsupported : Nat := 2

def txNotFound : Nat := 3

def txNotFinalized : Nat := 4

def logIndexOutOfRange : Nat := 5

def logDataTooLarge : Nat := 6

/-- A chain of the configuration.  `load_chains` leaves out chains without an
endpoint. -/
structure Chain where
  endpoints : List Str
  minConfirmations : Nat
  endpoints_ne_nil : endpoints ≠ []
  deriving DecidableEq

/-- A normalised log: a 20-byte address and 32-byte topics. -/
structure Log where
  address : List UInt8
  topics : List (List UInt8)
  data : List UInt8
  length_address : address.length = 20
  length_topics : ∀ topic ∈ topics, topic.length = 32
  deriving DecidableEq

/-- A normalised receipt. -/
structure Receipt where
  status : Int
  blockNumber : Int
  blockHash : List UInt8
  logs : List Log
  deriving DecidableEq

section Service

variable (py : Interpreter)

/-- One entry of `logs`.  The source checks the lengths after it has read all
logs.  A failure has the same effect in both places. -/
def normalizeLog (log : Json) : Option Log := do
  let address ← hexb (← getItem log (lit "address"))
  let topics ← (← iterate (← getItem log (lit "topics"))).mapM hexb
  let data ← hexb (← getItem log (lit "data"))
  if h : address.length = 20 ∧ ∀ topic ∈ topics, topic.length = 32 then
    some { address, topics, data, length_address := h.1, length_topics := h.2 }
  else none

/-- `normalize_receipt`.  `none` is an exception, `some none` is `None`. -/
def normalizeReceipt (result : Json) : Option (Option Receipt) :=
  match result with
  | .null => some none
  | result => do
    let status ← intOfHex py (← getItem result (lit "status"))
    let blockNumber ← intOfHex py (← getItem result (lit "blockNumber"))
    let blockHash ← hexb (← getItem result (lit "blockHash"))
    let logs ← (← iterate (← getItem result (lit "logs"))).mapM normalizeLog
    some (some { status, blockNumber, blockHash, logs })

variable (rpc : Rpc)

/-- The normalised receipt of an endpoint. -/
def receiptAt (txHash : Str) (i : Nat) (endpoint : Str) : Option (Option Receipt) := do
  normalizeReceipt py (← rpc i endpoint (lit "eth_getTransactionReceipt") [.str txHash])

/-- `finalized_head`. -/
def finalizedHead (chain : Chain) (i : Nat) (endpoint : Str) : Option Int :=
  if chain.minConfirmations ≠ 0 then do
    let latest ← rpc i endpoint (lit "eth_getBlockByNumber") [.str (lit "latest"), .bool false]
    let number ← intOfHex py (← getItem latest (lit "number"))
    some (number - chain.minConfirmations)
  else do
    let block ← rpc i endpoint (lit "eth_getBlockByNumber") [.str (lit "finalized"), .bool false]
    intOfHex py (← getItem block (lit "number"))

/-- The part of the loop that clears `finalized`.  Only an endpoint with a
receipt is asked for its head. -/
def confirm (chain : Chain) (i : Nat) (endpoint : Str) : Option Receipt → Option Bool
  | none => some true
  | some receipt =>
    (finalizedHead py rpc chain i endpoint).map fun head => !decide (receipt.blockNumber > head)

/-- `get_receipt`: the first answer is kept, and each further one is compared
with it. -/
def getReceipt (chain : Chain) (txHash : Str) : Option (Option Receipt × Bool) :=
  match agree (receiptAt py rpc txHash) (confirm py rpc chain) chain.endpoints with
  | none => none
  | some (none, _) => some (none, false)
  | some (some receipt, finalized) => some (some receipt, finalized)

/-- The reply with a log. -/
def logReply (log : Log) : List UInt8 :=
  leBytes 8 success ++ zeros 12 ++ log.address ++ leBytes 8 log.topics.length ++
    log.topics.flatten ++ zeros (32 * (4 - log.topics.length)) ++ leBytes 8 log.data.length ++
    log.data ++ zeros (256 - log.data.length)

/-- `handle_query` behind `get_receipt`.  A failed assertion is `none`. -/
def answer (receipt : Receipt) (finalized : Bool) (logIndex : Nat) :
    Option (UInt16 × List UInt8) :=
  if ¬ finalized ∨ receipt.status ≠ 1 then some (noError, codeReply replySize txNotFinalized)
  else
    match receipt.logs[logIndex]? with
    | none => some (noError, codeReply replySize logIndexOutOfRange)
    | some log =>
      if log.data.length > 256 then some (noError, codeReply replySize logDataTooLarge)
      else if log.topics.length > 4 then some (oracleUnavail, zeros replySize)
      else if (logReply log).length = replySize then some (noError, logReply log)
      else none

/-- `handle_query`. -/
def handleQuery (chains : Nat → Option Chain) (payload : List UInt8) :
    Option (UInt16 × List UInt8) :=
  if payload.length ≠ querySize then some (invalidArg, zeros replySize)
  else
    let query := unpackQuery payload
    if query.txHash = zeros 32 then some (noError, codeReply replySize badQuery)
    else
      match chains query.first with
      | none => some (noError, codeReply replySize chainUnsupported)
      | some chain =>
        match getReceipt py rpc chain (lit "0x" ++ hex query.txHash) with
        | none => some (oracleUnavail, zeros replySize)
        | some (none, _) => some (noError, codeReply replySize txNotFound)
        | some (some receipt, finalized) => answer receipt finalized query.last

end Service

/-! ## The cascade of result codes -/

theorem length_flatten_topics (log : Log) : log.topics.flatten.length = 32 * log.topics.length := by
  have h := log.length_topics
  generalize log.topics = topics at h
  induction topics with
  | nil => rfl
  | cons topic topics ih =>
    rw [List.flatten_cons, List.length_append, h topic List.mem_cons_self,
      ih fun t ht => h t (List.mem_cons_of_mem topic ht), List.length_cons]
    omega

/-- The assertion on the length of a reply holds. -/
theorem length_logReply {log : Log} (htopics : log.topics.length ≤ 4)
    (hdata : log.data.length ≤ 256) : (logReply log).length = replySize := by
  simp only [logReply, List.length_append, length_leBytes, length_zeros, log.length_address,
    length_flatten_topics, replySize]
  omega

theorem length_answer {receipt : Receipt} {finalized : Bool} {logIndex : Nat}
    {flags : UInt16} {reply : List UInt8}
    (h : answer receipt finalized logIndex = some (flags, reply)) :
    reply.length = replySize := by
  have hcode := @length_codeReply replySize (by decide)
  have hzeros := length_zeros replySize
  grind [answer]

/-- Every reply has the size that the header of its packet announces. -/
theorem length_handleQuery {py : Interpreter} {rpc : Rpc} {chains : Nat → Option Chain}
    {payload reply : List UInt8} {flags : UInt16}
    (h : handleQuery py rpc chains payload = some (flags, reply)) :
    reply.length = replySize := by
  have hcode := @length_codeReply replySize (by decide)
  have hzeros := length_zeros replySize
  have hanswer := @length_answer
  grind [handleQuery]

theorem replyCode_logReply (log : Log) : replyCode (logReply log) = success := by
  simp only [logReply, List.append_assoc]
  exact replyCode_append (by decide) _

/-- A receipt that is answered with a log: final, successful, and with a log of
the right size at the index. -/
def Answerable (receipt : Receipt) (finalized : Bool) (logIndex : Nat) (log : Log) : Prop :=
  finalized = true ∧ receipt.status = 1 ∧ receipt.logs[logIndex]? = some log ∧
    log.topics.length ≤ 4 ∧ log.data.length ≤ 256

theorem answer_eq_logReply {receipt : Receipt} {finalized : Bool} {logIndex : Nat} {log : Log}
    (h : Answerable receipt finalized logIndex log) :
    answer receipt finalized logIndex = some (noError, logReply log) := by
  obtain ⟨rfl, hstatus, hlog, htopics, hdata⟩ := h
  have hfinal : ¬ (¬ true = true ∨ receipt.status ≠ 1) := by simp [hstatus]
  rw [answer, if_neg hfinal]
  simp only [hlog, if_neg (Nat.not_lt.mpr hdata), if_neg (Nat.not_lt.mpr htopics),
    if_pos (length_logReply htopics hdata)]

/-- A receipt that is there is answered with a log, if it can be, and else with
a code that is neither success nor not found, or with an error flag. -/
theorem answer_cases (receipt : Receipt) (finalized : Bool) (logIndex : Nat) :
    (∃ log, Answerable receipt finalized logIndex log) ∨
      (∃ code, code ∈ [txNotFinalized, logIndexOutOfRange, logDataTooLarge] ∧
        answer receipt finalized logIndex = some (noError, codeReply replySize code)) ∨
      answer receipt finalized logIndex = some (oracleUnavail, zeros replySize) := by
  unfold answer
  split
  · exact .inr (.inl ⟨txNotFinalized, by simp, rfl⟩)
  · next hfinal =>
    obtain ⟨hfinalized, hstatus⟩ := not_or.mp hfinal
    cases hlog : receipt.logs[logIndex]? with
    | none => exact .inr (.inl ⟨logIndexOutOfRange, by simp, rfl⟩)
    | some log =>
      by_cases hdata : log.data.length > 256
      · exact .inr (.inl ⟨logDataTooLarge, by simp, if_pos hdata⟩)
      · by_cases htopics : log.topics.length > 4
        · right
          right
          simp only [if_neg hdata, if_pos htopics]
        · exact .inl ⟨log, Decidable.not_not.mp hfinalized, Decidable.not_not.mp hstatus, hlog,
            Nat.not_lt.mp htopics, Nat.not_lt.mp hdata⟩

/-- The codes of a receipt without an answer. -/
theorem failureCode_ne : ∀ code ∈ [txNotFinalized, logIndexOutOfRange, logDataTooLarge],
    code < 2 ^ 64 ∧ code ≠ success ∧ code ≠ txNotFound := by
  decide

/-- A receipt that is there is answered with success exactly when its log can
be answered. -/
theorem replies_success_iff (receipt : Receipt) (finalized : Bool) (logIndex : Nat) :
    Replies (answer receipt finalized logIndex) noError success ↔
      ∃ log, Answerable receipt finalized logIndex log := by
  constructor
  · intro h
    rcases answer_cases receipt finalized logIndex with hlog | ⟨code, hcode, heq⟩ | heq
    · exact hlog
    · obtain ⟨hlt, hsuccess, -⟩ := failureCode_ne code hcode
      rw [heq] at h
      exact absurd h (not_replies_codeReply hlt hsuccess)
    · rw [heq] at h
      exact absurd h (not_replies_of_flags (by decide))
  · rintro ⟨log, hlog⟩
    exact ⟨logReply log, answer_eq_logReply hlog, replyCode_logReply log⟩

/-- A receipt that is there is never answered as not found. -/
theorem not_replies_txNotFound (receipt : Receipt) (finalized : Bool) (logIndex : Nat) :
    ¬ Replies (answer receipt finalized logIndex) noError txNotFound := by
  intro h
  rcases answer_cases receipt finalized logIndex with ⟨log, hlog⟩ | ⟨code, hcode, heq⟩ | heq
  · rw [answer_eq_logReply hlog, replies_some_iff, replyCode_logReply] at h
    exact absurd h.2 (by decide)
  · obtain ⟨hlt, -, hnotFound⟩ := failureCode_ne code hcode
    rw [heq] at h
    exact absurd h (not_replies_codeReply hlt hnotFound)
  · rw [heq] at h
    exact absurd h (not_replies_of_flags (by decide))

/-! ## The loop over the endpoints -/

section Loop

variable {py : Interpreter} {rpc : Rpc} {chain : Chain} {txHash : Str}

/-- All endpoints of the chain have this normalised receipt. -/
def AllAnswer (py : Interpreter) (rpc : Rpc) (chain : Chain) (txHash : Str)
    (one : Option Receipt) : Prop :=
  ∀ i endpoint, chain.endpoints[i]? = some endpoint →
    receiptAt py rpc txHash i endpoint = some one

theorem exists_confirm_iff {receipt : Receipt} {i : Nat} {endpoint : Str} :
    (∃ ok, confirm py rpc chain i endpoint (some receipt) = some ok) ↔
      ∃ head, finalizedHead py rpc chain i endpoint = some head := by
  rw [confirm]
  cases finalizedHead py rpc chain i endpoint with
  | none => simp
  | some head => exact iff_of_true ⟨_, rfl⟩ ⟨head, rfl⟩

theorem confirm_eq_true_iff {receipt : Receipt} {i : Nat} {endpoint : Str} :
    confirm py rpc chain i endpoint (some receipt) = some true ↔
      ∃ head, finalizedHead py rpc chain i endpoint = some head ∧
        receipt.blockNumber ≤ head := by
  rw [confirm]
  cases finalizedHead py rpc chain i endpoint <;> simp

/-- The loop ends without a receipt when no endpoint has one. -/
theorem getReceipt_eq_none_iff (finalized : Bool) :
    getReceipt py rpc chain txHash = some (none, finalized) ↔
      finalized = false ∧ AllAnswer py rpc chain txHash none := by
  have hagree : ∀ confirmed,
      agree (receiptAt py rpc txHash) (confirm py rpc chain) chain.endpoints =
        some (none, confirmed) ↔
      AllAnswer py rpc chain txHash none ∧ confirmed = true := by
    intro confirmed
    rw [agree_eq_some_iff chain.endpoints_ne_nil]
    simp [Unanimous, Confirmed, confirm, AllAnswer]
  unfold getReceipt
  split
  · next hnone =>
    refine iff_of_false (by simp) ?_
    rintro ⟨-, hall⟩
    rw [(hagree true).mpr ⟨hall, rfl⟩] at hnone
    cases hnone
  · next confirmed hsome =>
    have hall := ((hagree confirmed).mp hsome).1
    simp [hall, eq_comm]
  · next receipt confirmed hsome =>
    refine iff_of_false (by simp) ?_
    rintro ⟨-, hall⟩
    rw [(hagree true).mpr ⟨hall, rfl⟩] at hsome
    cases hsome

/-- The loop ends with a receipt when all endpoints have it and tell their
heads.  The flag says whether the receipt's block is below all of them. -/
theorem getReceipt_eq_some_iff {receipt : Receipt} {finalized : Bool} :
    getReceipt py rpc chain txHash = some (some receipt, finalized) ↔
      AllAnswer py rpc chain txHash (some receipt) ∧
      (∀ i endpoint, chain.endpoints[i]? = some endpoint →
        ∃ head, finalizedHead py rpc chain i endpoint = some head) ∧
      (finalized = true ↔ ∀ i endpoint, chain.endpoints[i]? = some endpoint →
        ∃ head, finalizedHead py rpc chain i endpoint = some head ∧
          receipt.blockNumber ≤ head) := by
  have hagree : agree (receiptAt py rpc txHash) (confirm py rpc chain) chain.endpoints =
        some (some receipt, finalized) ↔
      AllAnswer py rpc chain txHash (some receipt) ∧
      (∀ i endpoint, chain.endpoints[i]? = some endpoint →
        ∃ head, finalizedHead py rpc chain i endpoint = some head) ∧
      (finalized = true ↔ ∀ i endpoint, chain.endpoints[i]? = some endpoint →
        ∃ head, finalizedHead py rpc chain i endpoint = some head ∧
          receipt.blockNumber ≤ head) := by
    rw [agree_eq_some_iff chain.endpoints_ne_nil]
    simp only [Unanimous, Confirmed, AllAnswer, Nat.zero_add, exists_confirm_iff,
      confirm_eq_true_iff, imp_and, forall_and, and_assoc]
  rw [← hagree]
  unfold getReceipt
  split <;> simp_all

end Loop

/-! ## The decision -/

/-- `handle_query` on a query with a transaction hash and a configured chain. -/
theorem handleQuery_eq {py : Interpreter} {rpc : Rpc} {chains : Nat → Option Chain}
    {payload : List UInt8} {chain : Chain} (hlength : payload.length = querySize)
    (hhash : (unpackQuery payload).txHash ≠ zeros 32)
    (hchain : chains (unpackQuery payload).first = some chain) :
    handleQuery py rpc chains payload =
      match getReceipt py rpc chain (lit "0x" ++ hex (unpackQuery payload).txHash) with
      | none => some (oracleUnavail, zeros replySize)
      | some (none, _) => some (noError, codeReply replySize txNotFound)
      | some (some receipt, finalized) => answer receipt finalized (unpackQuery payload).last := by
  simp only [handleQuery, if_neg (not_not_intro hlength), if_neg hhash, hchain]

/-- A reply with a log or without a transaction comes from a configured chain. -/
theorem exists_chain_of_replies {py : Interpreter} {rpc : Rpc} {chains : Nat → Option Chain}
    {payload : List UInt8} {code : Nat} (hlength : payload.length = querySize)
    (hcode : code = success ∨ code = txNotFound)
    (h : Replies (handleQuery py rpc chains payload) noError code) :
    (unpackQuery payload).txHash ≠ zeros 32 ∧
      ∃ chain, chains (unpackQuery payload).first = some chain := by
  have hother : ∀ other, other < 2 ^ 64 → other ≠ success → other ≠ txNotFound →
      ¬ Replies (some (noError, codeReply replySize other)) noError code := by
    intro other hlt hne hne'
    rcases hcode with rfl | rfl
    · exact not_replies_codeReply hlt hne
    · exact not_replies_codeReply hlt hne'
  simp only [handleQuery, if_neg (not_not_intro hlength)] at h
  split at h
  · exact absurd h (hother _ (by decide) (by decide) (by decide))
  · next hhash =>
    refine ⟨hhash, ?_⟩
    split at h
    · exact absurd h (hother _ (by decide) (by decide) (by decide))
    · next chain hchain => exact ⟨chain, hchain⟩

section Answers

variable {py : Interpreter} {rpc : Rpc} {chains : Nat → Option Chain} {payload : List UInt8}

/-- A log that all endpoints have below their heads, in terms of the normalised
receipts. -/
def AllHave (py : Interpreter) (rpc : Rpc) (chains : Nat → Option Chain) (query : LogQuery)
    (log : Log) : Prop :=
  query.txHash ≠ zeros 32 ∧ ∃ chain R, chains query.first = some chain ∧
    AllAnswer py rpc chain (lit "0x" ++ hex query.txHash) (some R) ∧ R.status = 1 ∧
    (∀ i e, chain.endpoints[i]? = some e →
      ∃ head, finalizedHead py rpc chain i e = some head ∧ R.blockNumber ≤ head) ∧
    R.logs[query.last]? = some log ∧ log.topics.length ≤ 4 ∧ log.data.length ≤ 256

theorem handleQuery_of_allHave (hlength : payload.length = querySize) {log : Log}
    (h : AllHave py rpc chains (unpackQuery payload) log) :
    handleQuery py rpc chains payload = some (noError, logReply log) := by
  obtain ⟨hhash, chain, R, hchain, hall, hstatus, hheads, hlog⟩ := h
  have hreceipt : getReceipt py rpc chain (lit "0x" ++ hex (unpackQuery payload).txHash) =
      some (some R, true) := by
    refine getReceipt_eq_some_iff.mpr ⟨hall, fun i e he => ?_, iff_of_true rfl hheads⟩
    obtain ⟨head, hhead, -⟩ := hheads i e he
    exact ⟨head, hhead⟩
  rw [handleQuery_eq hlength hhash hchain, hreceipt]
  exact answer_eq_logReply ⟨rfl, hstatus, hlog⟩

/-- A receipt that is answered with a log. -/
theorem allHave_of_getReceipt {query : LogQuery} {chain : Chain} {R : Receipt}
    {finalized : Bool} {log : Log} (hhash : query.txHash ≠ zeros 32)
    (hchain : chains query.first = some chain)
    (hreceipt : getReceipt py rpc chain (lit "0x" ++ hex query.txHash) =
      some (some R, finalized))
    (h : Answerable R finalized query.last log) : AllHave py rpc chains query log := by
  obtain ⟨hall, -, hfinal⟩ := getReceipt_eq_some_iff.mp hreceipt
  obtain ⟨hfinalized, hstatus, hlog⟩ := h
  exact ⟨hhash, chain, R, hchain, hall, hstatus, hfinal.mp hfinalized, hlog⟩

/-- A reply with success is the reply with such a log. -/
theorem allHave_of_replies (hlength : payload.length = querySize)
    (h : Replies (handleQuery py rpc chains payload) noError success) :
    ∃ log, AllHave py rpc chains (unpackQuery payload) log := by
  obtain ⟨hhash, chain, hchain⟩ := exists_chain_of_replies hlength (.inl rfl) h
  rw [handleQuery_eq hlength hhash hchain] at h
  split at h
  · exact absurd h (not_replies_of_flags (by decide))
  · exact absurd h (not_replies_codeReply (by decide) (by decide))
  · next R finalized hreceipt =>
    obtain ⟨log, hlog⟩ := (replies_success_iff _ _ _).mp h
    exact ⟨log, allHave_of_getReceipt hhash hchain hreceipt hlog⟩

/-- The service answers that there is no transaction, in the same terms. -/
theorem replies_txNotFound_iff_allAnswer (hlength : payload.length = querySize) :
    Replies (handleQuery py rpc chains payload) noError txNotFound ↔
      (unpackQuery payload).txHash ≠ zeros 32 ∧ ∃ chain,
        chains (unpackQuery payload).first = some chain ∧
        AllAnswer py rpc chain (lit "0x" ++ hex (unpackQuery payload).txHash) none := by
  constructor
  · intro h
    obtain ⟨hhash, chain, hchain⟩ := exists_chain_of_replies hlength (.inr rfl) h
    rw [handleQuery_eq hlength hhash hchain] at h
    split at h
    · exact absurd h (not_replies_of_flags (by decide))
    · next hnone =>
      exact ⟨hhash, chain, hchain, ((getReceipt_eq_none_iff _).mp hnone).2⟩
    · exact absurd h (not_replies_txNotFound _ _ _)
  · rintro ⟨hhash, chain, hchain, hall⟩
    rw [handleQuery_eq hlength hhash hchain, (getReceipt_eq_none_iff false).mpr ⟨rfl, hall⟩]
    exact (replies_codeReply_iff (by decide)).mpr ⟨rfl, rfl⟩

/-- The service abstains when the endpoints do not agree, or when one of them has a
receipt and no head. -/
theorem handleQuery_eq_abstain (hlength : payload.length = querySize) {chain : Chain}
    (hhash : (unpackQuery payload).txHash ≠ zeros 32)
    (hchain : chains (unpackQuery payload).first = some chain)
    (hfailure : ∀ one,
      AllAnswer py rpc chain (lit "0x" ++ hex (unpackQuery payload).txHash) one →
      ∃ R i e, one = some R ∧ chain.endpoints[i]? = some e ∧
        finalizedHead py rpc chain i e = none) :
    handleQuery py rpc chains payload = some (oracleUnavail, zeros replySize) := by
  rw [handleQuery_eq hlength hhash hchain]
  cases hreceipt : getReceipt py rpc chain (lit "0x" ++ hex (unpackQuery payload).txHash) with
  | none => rfl
  | some result =>
    obtain ⟨one, finalized⟩ := result
    cases one with
    | none =>
      obtain ⟨R, -, -, hone, -⟩ := hfailure none ((getReceipt_eq_none_iff finalized).mp hreceipt).2
      simp at hone
    | some R =>
      obtain ⟨hall, hheads, -⟩ := getReceipt_eq_some_iff.mp hreceipt
      obtain ⟨-, i, e, -, he, hnone⟩ := hfailure (some R) hall
      obtain ⟨head, hsome⟩ := hheads i e he
      exact absurd (hnone.symm.trans hsome) (by simp)

end Answers

/-! ## What the endpoints say -/

/-- The value is a log of a receipt: a dictionary whose fields spell the address, the
topics and the data. -/
structure IsLog (v : Json) (log : Log) : Prop where
  address : ∃ value, getItem v (lit "address") = some value ∧ HexBytes value log.address
  topics : ∃ value items, getItem v (lit "topics") = some value ∧ iterate value = some items ∧
    List.Forall₂ HexBytes items log.topics
  data : ∃ value, getItem v (lit "data") = some value ∧ HexBytes value log.data

/-- The value is a receipt: a dictionary whose fields spell the two numbers and the block
hash, and whose logs are these. -/
structure IsReceipt (py : Interpreter) (v : Json) (R : Receipt) : Prop where
  status : ∃ value, getItem v (lit "status") = some value ∧ HexInt py value R.status
  blockNumber : ∃ value, getItem v (lit "blockNumber") = some value ∧
    HexInt py value R.blockNumber
  blockHash : ∃ value, getItem v (lit "blockHash") = some value ∧ HexBytes value R.blockHash
  logs : ∃ value items, getItem v (lit "logs") = some value ∧ iterate value = some items ∧
    List.Forall₂ IsLog items R.logs

/-- The answer to `eth_getTransactionReceipt`. -/
def receiptAnswer (rpc : Rpc) (txHash : List UInt8) (i : Nat) (endpoint : Str) : Option Json :=
  rpc i endpoint (lit "eth_getTransactionReceipt") [.str (lit "0x" ++ hex txHash)]

/-- The endpoint has a block under this tag, with this number. -/
def BlockNumber (py : Interpreter) (rpc : Rpc) (i : Nat) (endpoint : Str) (tag : String)
    (n : Int) : Prop :=
  ∃ block value,
    rpc i endpoint (lit "eth_getBlockByNumber") [.str (lit tag), .bool false] = some block ∧
    getItem block (lit "number") = some value ∧ HexInt py value n

/-- The head that an endpoint reports: its finalized block, or so many confirmations behind
its latest one when the chain has a number of them. -/
def ReportsHead (py : Interpreter) (rpc : Rpc) (chain : Chain) (i : Nat) (endpoint : Str)
    (head : Int) : Prop :=
  (chain.minConfirmations = 0 ∧ BlockNumber py rpc i endpoint "finalized" head) ∨
  (chain.minConfirmations ≠ 0 ∧ ∃ latest, BlockNumber py rpc i endpoint "latest" latest ∧
    head = latest - chain.minConfirmations)

/-- The log that a query asks for, when it is there and fits a reply: the hash is not zero,
the chain is configured, every endpoint answered the same successful receipt and reports a
head that is not below it, and the log stands in the receipt at the index. -/
def Passes (py : Interpreter) (rpc : Rpc) (chains : Nat → Option Chain) (payload : List UInt8)
    (log : Log) : Prop :=
  let chainId := leVal (payload.take 8)
  let txHash := (payload.drop 8).take 32
  let logIndex := leVal (payload.drop 40)
  txHash ≠ zeros 32 ∧ ∃ chain R, chains chainId = some chain ∧
    (∀ i e, chain.endpoints[i]? = some e →
      ∃ answer, receiptAnswer rpc txHash i e = some answer ∧ IsReceipt py answer R) ∧
    R.status = 1 ∧
    (∀ i e, chain.endpoints[i]? = some e →
      ∃ head, ReportsHead py rpc chain i e head ∧ R.blockNumber ≤ head) ∧
    R.logs[logIndex]? = some log ∧ log.topics.length ≤ 4 ∧ log.data.length ≤ 256

section Json

variable {py : Interpreter}

theorem normalizeLog_eq_some_iff {v : Json} {log : Log} :
    normalizeLog v = some log ↔ IsLog v log := by
  constructor
  · intro h
    simp only [normalizeLog, Option.bind_eq_bind, Option.bind_eq_some_iff, mapM_eq_some_iff,
      hexb_eq_some_iff] at h
    obtain ⟨v1, hv1, address, haddress, v2, hv2, items, hitems, topics, htopics, v3, hv3, data,
      hdata, h⟩ := h
    split at h
    · obtain rfl := Option.some.inj h
      exact ⟨⟨v1, hv1, haddress⟩, ⟨v2, items, hv2, hitems, htopics⟩, ⟨v3, hv3, hdata⟩⟩
    · simp at h
  · rintro ⟨⟨v1, hv1, haddress⟩, ⟨v2, items, hv2, hitems, htopics⟩, v3, hv3, hdata⟩
    have hmap : items.mapM hexb = some log.topics :=
      mapM_eq_some_iff.mpr (htopics.imp fun _ _ => hexb_eq_some_iff.mpr)
    rw [← hexb_eq_some_iff] at haddress hdata
    simp only [normalizeLog, hv1, haddress, hv2, hitems, hmap, hv3, hdata, Option.bind_eq_bind,
      Option.bind_some]
    exact dif_pos ⟨log.length_address, log.length_topics⟩

theorem normalizeReceipt_eq_none_iff {v : Json} :
    normalizeReceipt py v = some none ↔ v = .null := by
  constructor
  · intro h
    unfold normalizeReceipt at h
    split at h
    · rfl
    · simp [Option.bind_eq_some_iff] at h
  · rintro rfl
    rfl

theorem normalizeReceipt_eq_some_iff {v : Json} {R : Receipt} :
    normalizeReceipt py v = some (some R) ↔ IsReceipt py v R := by
  constructor
  · intro h
    unfold normalizeReceipt at h
    split at h
    · simp at h
    · simp only [Option.bind_eq_bind, Option.bind_eq_some_iff, mapM_eq_some_iff,
        hexb_eq_some_iff, intOfHex_eq_some_iff, normalizeLog_eq_some_iff, Option.some.injEq] at h
      obtain ⟨v1, hv1, status, hstatus, v2, hv2, number, hnumber, v3, hv3, hash, hhash, v4, hv4,
        items, hitems, logs, hlogs, rfl⟩ := h
      exact ⟨⟨v1, hv1, hstatus⟩, ⟨v2, hv2, hnumber⟩, ⟨v3, hv3, hhash⟩,
        ⟨v4, items, hv4, hitems, hlogs⟩⟩
  · rintro ⟨⟨v1, hv1, hstatus⟩, ⟨v2, hv2, hnumber⟩, ⟨v3, hv3, hhash⟩, v4, items, hv4, hitems, hlogs⟩
    have hmap : items.mapM normalizeLog = some R.logs :=
      mapM_eq_some_iff.mpr (hlogs.imp fun _ _ => normalizeLog_eq_some_iff.mpr)
    rw [← intOfHex_eq_some_iff] at hstatus hnumber
    rw [← hexb_eq_some_iff] at hhash
    unfold normalizeReceipt
    split
    · simp [getItem] at hv1
    · simp only [hv1, hstatus, hv2, hnumber, hv3, hhash, hv4, hitems, hmap, Option.bind_eq_bind,
        Option.bind_some]

theorem not_isReceipt_null (R : Receipt) : ¬ IsReceipt py .null R := by
  intro h
  obtain ⟨value, hvalue, -⟩ := h.status
  simp [getItem] at hvalue

/-- An answer is at most one receipt. -/
theorem isReceipt_unique {v : Json} {R R' : Receipt} (h : IsReceipt py v R)
    (h' : IsReceipt py v R') : R = R' := by
  rw [← normalizeReceipt_eq_some_iff] at h h'
  exact Option.some.inj (Option.some.inj (h.symm.trans h'))

variable {rpc : Rpc} {chain : Chain} {txHash : List UInt8} {i : Nat} {endpoint : Str}

theorem receiptAt_eq_none_iff :
    receiptAt py rpc (lit "0x" ++ hex txHash) i endpoint = some none ↔
      receiptAnswer rpc txHash i endpoint = some .null := by
  simp only [receiptAt, receiptAnswer, Option.bind_eq_bind, Option.bind_eq_some_iff,
    normalizeReceipt_eq_none_iff, exists_eq_right]

theorem receiptAt_eq_some_iff {R : Receipt} :
    receiptAt py rpc (lit "0x" ++ hex txHash) i endpoint = some (some R) ↔
      ∃ answer, receiptAnswer rpc txHash i endpoint = some answer ∧ IsReceipt py answer R := by
  simp only [receiptAt, receiptAnswer, Option.bind_eq_bind, Option.bind_eq_some_iff,
    normalizeReceipt_eq_some_iff]

theorem finalizedHead_eq_some_iff {head : Int} :
    finalizedHead py rpc chain i endpoint = some head ↔
      ReportsHead py rpc chain i endpoint head := by
  unfold finalizedHead ReportsHead BlockNumber
  by_cases hmin : chain.minConfirmations = 0
  · simp only [hmin, ne_eq, not_true_eq_false, if_false, Option.bind_eq_bind,
      Option.bind_eq_some_iff, intOfHex_eq_some_iff, true_and, false_and, or_false]
    constructor
    · rintro ⟨block, hblock, value, hvalue, hn⟩
      exact ⟨block, value, hblock, hvalue, hn⟩
    · rintro ⟨block, value, hblock, hvalue, hn⟩
      exact ⟨block, hblock, value, hvalue, hn⟩
  · simp only [hmin, ne_eq, not_false_eq_true, if_true, Option.bind_eq_bind,
      Option.bind_eq_some_iff, intOfHex_eq_some_iff, true_and, false_and, false_or,
      Option.some.injEq]
    constructor
    · rintro ⟨block, hblock, value, hvalue, n, hn, rfl⟩
      exact ⟨n, ⟨block, value, hblock, hvalue, hn⟩, rfl⟩
    · rintro ⟨n, ⟨block, value, hblock, hvalue, hn⟩, rfl⟩
      exact ⟨block, hblock, value, hvalue, n, hn, rfl⟩

theorem passes_iff {chains : Nat → Option Chain} {payload : List UInt8} {log : Log}
    (hlength : payload.length = 48) :
    Passes py rpc chains payload log ↔ AllHave py rpc chains (unpackQuery payload) log := by
  simp only [Passes, AllHave, unpackQuery_eq hlength, AllAnswer, receiptAt_eq_some_iff,
    finalizedHead_eq_some_iff]

/-- Success is the reply with a log that passes. -/
theorem replies_success_iff_passes {chains : Nat → Option Chain} {payload : List UInt8}
    (hlength : payload.length = 48) :
    Replies (handleQuery py rpc chains payload) noError success ↔
      ∃ log, Passes py rpc chains payload log := by
  simp only [passes_iff hlength]
  constructor
  · exact allHave_of_replies hlength
  · rintro ⟨log, hlog⟩
    exact ⟨logReply log, handleQuery_of_allHave hlength hlog, replyCode_logReply log⟩

end Json

/-- The exact decision of the service, for every configuration, every query of
48 bytes and every behaviour of the endpoints.

* It answers with a log exactly when there is a log that passes: the hash is not zero,
  the chain is configured, all endpoints answered one and the same successful receipt
  below all the heads that they report, and the receipt has a log at the index that fits
  the reply.
* It answers that there is no transaction exactly when the hash is not zero, the
  chain is configured and every endpoint answered `null`.
* It abstains when an endpoint does not answer, when its answer is neither `null` nor a
  receipt, when another endpoint does not have the same receipt, or when an endpoint with
  a receipt reports no head. -/
theorem evm_query_decided (py : Interpreter) (rpc : Rpc) (chains : Nat → Option Chain)
    (payload : List UInt8) (hlength : payload.length = 48) :
    let chainId := leVal (payload.take 8)
    let txHash := (payload.drop 8).take 32
    (Replies (handleQuery py rpc chains payload) noError success ↔
      ∃ log, Passes py rpc chains payload log) ∧
    (Replies (handleQuery py rpc chains payload) noError txNotFound ↔
      txHash ≠ zeros 32 ∧ ∃ chain, chains chainId = some chain ∧
        ∀ i e, chain.endpoints[i]? = some e → receiptAnswer rpc txHash i e = some .null) ∧
    (∀ chain, txHash ≠ zeros 32 → chains chainId = some chain →
      ((∃ i e, chain.endpoints[i]? = some e ∧ receiptAnswer rpc txHash i e = none) ∨
        (∃ i e answer, chain.endpoints[i]? = some e ∧
          receiptAnswer rpc txHash i e = some answer ∧ answer ≠ .null ∧
          ∀ R, ¬ IsReceipt py answer R) ∨
        (∃ i e answer j e' answer' R, chain.endpoints[i]? = some e ∧
          receiptAnswer rpc txHash i e = some answer ∧ IsReceipt py answer R ∧
          chain.endpoints[j]? = some e' ∧
          receiptAnswer rpc txHash j e' = some answer' ∧ ¬ IsReceipt py answer' R) ∨
        (∃ i e answer R, chain.endpoints[i]? = some e ∧
          receiptAnswer rpc txHash i e = some answer ∧ IsReceipt py answer R ∧
          ∀ head, ¬ ReportsHead py rpc chain i e head)) →
      handleQuery py rpc chains payload = some (oracleUnavail, zeros replySize)) := by
  intro chainId txHash
  have hquery := unpackQuery_eq hlength
  have hnotFound := @replies_txNotFound_iff_allAnswer py rpc chains payload hlength
  simp only [AllAnswer, receiptAt_eq_none_iff] at hnotFound
  rw [hquery] at hnotFound
  refine ⟨replies_success_iff_passes hlength, hnotFound, fun chain hhash hchain hfailure => ?_⟩
  have habstain := @handleQuery_eq_abstain py rpc chains payload hlength chain
  rw [hquery] at habstain
  refine habstain hhash hchain fun one hall => ?_
  cases one with
  | none =>
    -- all endpoints answered `null`, so that none of them has a receipt and all answered
    have hnull : ∀ i e, chain.endpoints[i]? = some e →
        receiptAnswer rpc txHash i e = some .null :=
      fun i e he => receiptAt_eq_none_iff.mp (hall i e he)
    have hreceipt : ∀ i e answer R, chain.endpoints[i]? = some e →
        receiptAnswer rpc txHash i e = some answer → ¬ IsReceipt py answer R := by
      intro i e answer R he hanswer
      obtain rfl : Json.null = answer := Option.some.inj ((hnull i e he).symm.trans hanswer)
      exact not_isReceipt_null R
    rcases hfailure with ⟨i, e, he, hanswer⟩ | ⟨i, e, answer, he, hanswer, hne, -⟩ |
      ⟨i, e, answer, _, _, _, R, he, hanswer, hR, -⟩ | ⟨i, e, answer, R, he, hanswer, hR, -⟩
    · exact absurd ((hnull i e he).symm.trans hanswer) (by simp)
    · exact absurd (Option.some.inj ((hnull i e he).symm.trans hanswer)).symm hne
    · exact absurd hR (hreceipt i e answer R he hanswer)
    · exact absurd hR (hreceipt i e answer R he hanswer)
  | some R =>
    -- all answers are the receipt `R`, so that only a head can be missing
    have hcommon : ∀ i e answer, chain.endpoints[i]? = some e →
        receiptAnswer rpc txHash i e = some answer → IsReceipt py answer R := by
      intro i e answer he hanswer
      obtain ⟨answer', hanswer', hR⟩ := receiptAt_eq_some_iff.mp (hall i e he)
      obtain rfl : answer' = answer := Option.some.inj (hanswer'.symm.trans hanswer)
      exact hR
    rcases hfailure with ⟨i, e, he, hanswer⟩ | ⟨i, e, answer, he, hanswer, -, hmalformed⟩ |
      ⟨i, e, answer, j, e', answer', R', he, hanswer, hR', he', hanswer', hnot⟩ |
      ⟨i, e, answer, R', he, hanswer, hR', hhead⟩
    · obtain ⟨answer, hanswer', -⟩ := receiptAt_eq_some_iff.mp (hall i e he)
      exact absurd (hanswer'.symm.trans hanswer) (by simp)
    · exact absurd (hcommon i e answer he hanswer) (hmalformed R)
    · obtain rfl := isReceipt_unique (hcommon i e answer he hanswer) hR'
      exact absurd (hcommon j e' answer' he' hanswer') hnot
    · refine ⟨R, i, e, rfl, he, Option.eq_none_iff_forall_ne_some.mpr fun head hsome => ?_⟩
      exact hhead head (finalizedHead_eq_some_iff.mp hsome)

/-- A receipt with one log, whose topic and whose last byte of data are zeros as the
padding of a reply is, and the log. -/
def sampleReceipt : Json :=
  .dict [(lit "status", .str (lit "0x1")), (lit "blockNumber", .str (lit "0x10")),
    (lit "blockHash", .str (lit "0xaa")),
    (lit "logs", .list [.dict [(lit "address", .str (lit "0x" ++ List.replicate 40 49)),
      (lit "topics", .list [.str (lit "0x" ++ List.replicate 64 48)]),
      (lit "data", .str (lit "0x2a00"))]])]

def sampleLog : Log where
  address := List.replicate 20 0x11
  topics := [zeros 32]
  data := [42, 0]
  length_address := rfl
  length_topics := by decide

/-- Endpoints that have the receipt, and a later head. -/
def sampleRpc : Rpc := fun _ _ method _ =>
  if method = lit "eth_getTransactionReceipt" then some sampleReceipt
  else some (.dict [(lit "number", .str (lit "0x20"))])

/-- One chain with two endpoints. -/
def sampleChains (chainId : Nat) : Option Chain :=
  if chainId = 1 then some ⟨[lit "a", lit "b"], 0, by decide⟩ else none

/-- A query for the first log on the chain. -/
def sampleQuery : List UInt8 := leBytes 8 1 ++ List.replicate 32 7 ++ leBytes 8 0

theorem passes_sampleLog : Passes .sample sampleRpc sampleChains sampleQuery sampleLog := by
  refine ⟨by decide, ⟨[lit "a", lit "b"], 0, by decide⟩, ⟨1, 16, [0xaa], [sampleLog]⟩,
    by decide, fun i e _ => ?_, rfl, fun i e _ => ?_, by decide, by decide, by decide⟩
  · exact ⟨sampleReceipt, rfl, normalizeReceipt_eq_some_iff.mp rfl⟩
  · exact ⟨32, finalizedHead_eq_some_iff.mp rfl, by decide⟩

/-- Two endpoints with the same receipt: the log is answered. -/
theorem evm_query_decided_two_endpoints :
    Replies (handleQuery .sample sampleRpc sampleChains sampleQuery) noError success :=
  (evm_query_decided .sample sampleRpc sampleChains sampleQuery (by decide)).1.mpr
    ⟨sampleLog, passes_sampleLog⟩

end OracleMachine.Logs.EvmLog
