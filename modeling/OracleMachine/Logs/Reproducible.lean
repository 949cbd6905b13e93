import OracleMachine.Logs.EvmLog
import OracleMachine.Logs.QubicLog

/-!
# Replies of two runs

A query is served by many operators, each with endpoints of its own, and again
at another time.  The replies are compared byte by byte, so that a service has
to give the same reply or none.

The operators share the receipt of the transaction: every endpoint that has one
has the same normalised receipt.  `EvmLog.Run.expected_of_result` and
`QubicLog.Run.expected_of_result` say that a reply is then a function of the query
and of that receipt: the number of the endpoints and their order are gone.  Of
the heads only one bit stays (`EvmLog.Run.result_cases`).
`log_replies_reproducible` compares two runs with these lemmas.
-/

namespace OracleMachine.Logs

open Lib.Bytes Lib.Python

/-! ## Runs of the EVM service -/

namespace EvmLog

/-- The answer to a query about a transaction with a final receipt. -/
def expected (payload : List UInt8) (R : Receipt) : Option (UInt16 × List UInt8) :=
  if (unpackQuery payload).txHash = zeros 32 then some (noError, codeReply replySize badQuery)
  else answer R true (unpackQuery payload).last

theorem length_of_expected {payload : List UInt8} {R : Receipt} {reply : List UInt8}
    (h : expected payload R = some (noError, reply)) : reply.length = replySize := by
  unfold expected at h
  split at h
  · cases h
    exact length_codeReply (by decide) badQuery
  · rcases answer_cases R true (unpackQuery payload).last with
      ⟨log, hlog⟩ | ⟨code, -, heq⟩ | heq
    · rw [answer_eq_logReply hlog] at h
      cases h
      exact length_logReply hlog.2.2.2.1 hlog.2.2.2.2
    · cases heq.symm.trans h
      exact length_codeReply (by decide) code
    · cases heq.symm.trans h

/-- A run on a query whose chain is configured. -/
structure Run (payload : List UInt8) where
  py : Interpreter
  rpc : Rpc
  chains : Nat → Option Chain
  chain : Chain
  configured : chains (unpackQuery payload).first = some chain

namespace Run

variable {payload : List UInt8}

/-- What the run returns. -/
def result (run : Run payload) : Option (UInt16 × List UInt8) :=
  handleQuery run.py run.rpc run.chains payload

/-- The normalised receipt that an endpoint returns in the run. -/
def receipt (run : Run payload) : Nat → Str → Option (Option Receipt) :=
  receiptAt run.py run.rpc (lit "0x" ++ hex (unpackQuery payload).txHash)

/-- The head that an endpoint reports in the run. -/
def head (run : Run payload) : Nat → Str → Option Int :=
  finalizedHead run.py run.rpc run.chain

/-- Every endpoint that returns a receipt returns this one. -/
def Sees (run : Run payload) (R : Receipt) : Prop :=
  ∀ i e R', run.chain.endpoints[i]? = some e → run.receipt i e = some (some R') → R' = R

/-- The receipt's block is below the heads of all endpoints. -/
def Final (run : Run payload) (R : Receipt) : Prop :=
  ∀ i e, run.chain.endpoints[i]? = some e → ∃ head, run.head i e = some head ∧ R.blockNumber ≤ head

/-- Every endpoint of the second run is one of the first run and reports a head
that is not lower than there. -/
def HeadsNotLower (first second : Run payload) : Prop :=
  ∀ j e, second.chain.endpoints[j]? = some e →
    ∃ i, first.chain.endpoints[i]? = some e ∧
      ∀ head head', first.head i e = some head → second.head j e = some head' → head ≤ head'

/-- A run with the receipt `R` on a good query abstains, finds no transaction at
any endpoint, or gives the answer that belongs to `R` and to its finality. -/
theorem result_cases {run : Run payload} {R : Receipt} (hsees : run.Sees R)
    (hlength : payload.length = querySize) (hhash : (unpackQuery payload).txHash ≠ zeros 32) :
    run.result = some (oracleUnavail, zeros replySize) ∨
      ((∀ i e, run.chain.endpoints[i]? = some e → run.receipt i e = some none) ∧
        run.result = some (noError, codeReply replySize txNotFound)) ∨
      ∃ finalized, (finalized = true ↔ run.Final R) ∧
        (∀ i e, run.chain.endpoints[i]? = some e → ∃ head, run.head i e = some head) ∧
        run.result = answer R finalized (unpackQuery payload).last := by
  rw [result, handleQuery_eq hlength hhash run.configured]
  split
  · exact .inl rfl
  · next hnone => exact .inr (.inl ⟨((getReceipt_eq_none_iff _).mp hnone).2, rfl⟩)
  · next R' finalized hsome =>
    obtain ⟨hall, hheads, hfinal⟩ := getReceipt_eq_some_iff.mp hsome
    -- there is a first endpoint, and its receipt is `R`
    have hfirst := List.head?_eq_some_head run.chain.endpoints_ne_nil
    rw [List.head?_eq_getElem?] at hfirst
    obtain rfl : R' = R := hsees 0 _ R' hfirst (hall 0 _ hfirst)
    exact .inr (.inr ⟨finalized, hfinal, hheads, rfl⟩)

/-- A receipt that is final for the first run is final for a later one. -/
theorem Final.of_headsNotLower {first second : Run payload} {R : Receipt}
    (hfinal : first.Final R) (hheads : HeadsNotLower first second)
    (hsome : ∀ j e, second.chain.endpoints[j]? = some e → ∃ head, second.head j e = some head) :
    second.Final R := by
  intro j e he
  obtain ⟨head', hhead'⟩ := hsome j e he
  obtain ⟨i, hi, hle⟩ := hheads j e he
  obtain ⟨head, hhead, hbelow⟩ := hfinal i e hi
  exact ⟨head', hhead', hbelow.trans (hle head head' hhead hhead')⟩

/-- What a reply says without the endpoints: it is a function of the query and
of the receipt. -/
theorem expected_of_result {run : Run payload} {R : Receipt} {reply : List UInt8}
    (hsees : run.Sees R) (hresult : run.result = some (noError, reply))
    (hnotFound : replyCode reply ≠ txNotFound) (hnotFinalized : replyCode reply ≠ txNotFinalized) :
    expected payload R = some (noError, reply) := by
  by_cases hlength : payload.length = querySize
  · by_cases hhash : (unpackQuery payload).txHash = zeros 32
    · rw [expected, if_pos hhash, ← hresult, result, handleQuery,
        if_neg (not_not_intro hlength)]
      exact (if_pos hhash).symm
    · rw [expected, if_neg hhash]
      rcases result_cases hsees hlength hhash with h | ⟨-, h⟩ | ⟨finalized, -, -, h⟩
      · cases hresult.symm.trans h
      · cases hresult.symm.trans h
        exact absurd (replyCode_codeReply replySize (by decide)) hnotFound
      · rw [hresult] at h
        cases finalized with
        | true => exact h.symm
        | false =>
          cases h.trans (if_pos (.inl (by decide)))
          exact absurd (replyCode_codeReply replySize (by decide)) hnotFinalized
  · rw [result, handleQuery, if_pos hlength] at hresult
    cases hresult

/-- What a later run does after a reply with a log. -/
theorem result_of_later {first second : Run payload} {R : Receipt} (hfirst : first.Sees R)
    (hsecond : second.Sees R) (hsuccess : Replies first.result noError success)
    (hheads : HeadsNotLower first second) :
    second.result = some (oracleUnavail, zeros replySize) ∨
      (Replies second.result noError txNotFound ∧
        ∀ j e, second.chain.endpoints[j]? = some e → second.receipt j e = some none) ∨
      second.result = first.result := by
  have hlength : payload.length = querySize := by
    by_contra hlength
    rw [result, handleQuery, if_pos hlength] at hsuccess
    exact not_replies_of_flags (by decide) hsuccess
  obtain ⟨hhash, -⟩ := exists_chain_of_replies hlength (.inl rfl) hsuccess
  rcases result_cases hfirst hlength hhash with h | ⟨-, h⟩ | ⟨finalized, hfinal, -, h⟩
  · rw [h] at hsuccess
    exact absurd hsuccess (not_replies_of_flags (by decide))
  · rw [h] at hsuccess
    exact absurd hsuccess (not_replies_codeReply (by decide) (by decide))
  · rw [h] at hsuccess
    obtain ⟨log, rfl, -⟩ := (replies_success_iff _ _ _).mp hsuccess
    rcases result_cases hsecond hlength hhash with h' | ⟨hnone, h'⟩ | ⟨finalized', hfinal', hsome, h'⟩
    · exact .inl h'
    · refine .inr (.inl ⟨?_, hnone⟩)
      rw [h']
      exact (replies_codeReply_iff (by decide)).mpr ⟨rfl, rfl⟩
    · obtain rfl := hfinal'.mpr ((hfinal.mp rfl).of_headsNotLower hheads hsome)
      exact .inr (.inr (h'.trans h.symm))

end Run

end EvmLog

/-! ## Runs of the Qubic service -/

namespace QubicLog

open Identity (qubicIdentity)

/-- The answer to a query about a transaction with a receipt. -/
def expected (payload : List UInt8) (R : Receipt) : Option (UInt16 × List UInt8) :=
  if (unpackQuery payload).txHash = zeros 32 ∨ (unpackQuery payload).first = 0 then
    some (noError, codeReply replySize badQuery)
  else answer R (unpackQuery payload).first (unpackQuery payload).last

theorem length_of_expected {payload : List UInt8} {R : Receipt} {reply : List UInt8}
    (h : expected payload R = some (noError, reply)) : reply.length = replySize := by
  unfold expected at h
  split at h
  · cases h
    exact length_codeReply (by decide) badQuery
  · rcases answer_cases R (unpackQuery payload).first (unpackQuery payload).last with
      ⟨log, hlog⟩ | ⟨code, -, heq⟩
    · rw [answer_eq_logReply hlog] at h
      cases h
      exact length_logReply hlog.2.2.2
    · cases heq.symm.trans h
      exact length_codeReply (by decide) code

/-- A run with bobs. -/
structure Run where
  py : Interpreter
  rpc : Rpc
  bobs : List Str
  bobs_ne_nil : bobs ≠ []

namespace Run

variable {payload : List UInt8}

/-- What the run returns. -/
def result (run : Run) (payload : List UInt8) : Option (UInt16 × List UInt8) :=
  handleQuery run.py run.rpc run.bobs payload

/-- Every bob that returns a receipt returns this one. -/
def Sees (run : Run) (payload : List UInt8) (R : Receipt) : Prop :=
  ∀ i bob R', run.bobs[i]? = some bob →
    receiptAt run.py run.rpc (qubicIdentity (unpackQuery payload).txHash true) i bob =
      some (some R') → R' = R

/-- What a reply says without the bobs: it is a function of the query and of the
receipt. -/
theorem expected_of_result {run : Run} {R : Receipt} {reply : List UInt8}
    (hsees : run.Sees payload R) (hresult : run.result payload = some (noError, reply))
    (hnotFound : replyCode reply ≠ txNotFound) : expected payload R = some (noError, reply) := by
  by_cases hlength : payload.length = querySize
  · by_cases hquery : (unpackQuery payload).txHash = zeros 32 ∨ (unpackQuery payload).first = 0
    · rw [expected, if_pos hquery, ← hresult, result, handleQuery,
        if_neg (not_not_intro hlength)]
      exact (if_pos hquery).symm
    · obtain ⟨hhash, htick⟩ := not_or.mp hquery
      rw [result, handleQuery_eq run.bobs_ne_nil hlength htick hhash] at hresult
      rw [expected, if_neg hquery]
      split at hresult
      · cases hresult
      · cases hresult
        exact absurd (replyCode_codeReply replySize (by decide)) hnotFound
      · next R' hsome =>
        have hall := (getReceipt_eq_some_iff run.bobs_ne_nil).mp hsome
        -- there is a first bob, and its receipt is `R`
        have hfirst := List.head?_eq_some_head run.bobs_ne_nil
        rw [List.head?_eq_getElem?] at hfirst
        obtain rfl : R' = R := hsees 0 _ R' hfirst (hall 0 _ hfirst)
        exact hresult
  · rw [result, handleQuery, if_pos hlength] at hresult
    cases hresult

end Run

end QubicLog

/-! ## Two runs -/

/-- Two runs of one query give the same reply, if they give one.

* Two runs of the EVM service whose endpoints see the same receipt, and that
  neither abstain nor answer that the transaction is not found or not final,
  return the same 440 bytes.
* When an EVM run has answered with a log, and a later run has endpoints of the
  first run with heads that are not lower, then the later run abstains, finds the
  transaction at no endpoint, or returns the same reply.
* Two runs of the Qubic service whose bobs see the same receipt, and that neither
  abstain nor answer that the transaction is not found, return the same 288
  bytes. -/
theorem log_replies_reproducible (payload : List UInt8) :
    (∀ (first second : EvmLog.Run payload) (R : EvmLog.Receipt) (reply reply' : List UInt8),
      first.Sees R → second.Sees R →
      first.result = some (noError, reply) → second.result = some (noError, reply') →
      replyCode reply ≠ EvmLog.txNotFound → replyCode reply' ≠ EvmLog.txNotFound →
      replyCode reply ≠ EvmLog.txNotFinalized → replyCode reply' ≠ EvmLog.txNotFinalized →
      reply = reply' ∧ reply.length = 440) ∧
    (∀ (first second : EvmLog.Run payload) (R : EvmLog.Receipt),
      first.Sees R → second.Sees R → Replies first.result noError EvmLog.success →
      EvmLog.Run.HeadsNotLower first second →
      second.result = some (oracleUnavail, zeros 440) ∨
        (Replies second.result noError EvmLog.txNotFound ∧
          ∀ j e, second.chain.endpoints[j]? = some e → second.receipt j e = some none) ∨
        second.result = first.result) ∧
    (∀ (first second : QubicLog.Run) (R : QubicLog.Receipt) (reply reply' : List UInt8),
      first.Sees payload R → second.Sees payload R →
      first.result payload = some (noError, reply) →
      second.result payload = some (noError, reply') →
      replyCode reply ≠ QubicLog.txNotFound → replyCode reply' ≠ QubicLog.txNotFound →
      reply = reply' ∧ reply.length = 288) := by
  refine ⟨?_, fun first second R => EvmLog.Run.result_of_later, ?_⟩
  · intro first second R reply reply' hsees hsees' hresult hresult' hfound hfound' hfinal hfinal'
    have hreply := EvmLog.Run.expected_of_result hsees hresult hfound hfinal
    have hreply' := EvmLog.Run.expected_of_result hsees' hresult' hfound' hfinal'
    cases hreply.symm.trans hreply'
    exact ⟨rfl, EvmLog.length_of_expected hreply⟩
  · intro first second R reply reply' hsees hsees' hresult hresult' hfound hfound'
    have hreply := QubicLog.Run.expected_of_result hsees hresult hfound
    have hreply' := QubicLog.Run.expected_of_result hsees' hresult' hfound'
    cases hreply.symm.trans hreply'
    exact ⟨rfl, QubicLog.length_of_expected hreply⟩

/-- A run on the query for log 0, with the given endpoints. -/
def sampleEvmRun (endpoints : List Str) (h : endpoints ≠ []) :
    EvmLog.Run (leBytes 8 1 ++ List.replicate 32 7 ++ leBytes 8 0) where
  py := .sample
  rpc := EvmLog.sampleRpc
  chains := fun _ => some ⟨endpoints, 0, h⟩
  chain := ⟨endpoints, 0, h⟩
  configured := rfl

theorem sees_sampleEvmRun {endpoints : List Str} (h : endpoints ≠ []) :
    (sampleEvmRun endpoints h).Sees ⟨1, 16, [0xaa], [EvmLog.sampleLog]⟩ := by
  intro i e R' _ hR'
  exact (Option.some.inj (Option.some.inj hR')).symm

/-- A run of the Qubic service with the given bobs. -/
def sampleQubicRun (bobs : List Str) (h : bobs ≠ []) : QubicLog.Run where
  py := .sample
  rpc := QubicLog.sampleRpc
  bobs := bobs
  bobs_ne_nil := h

theorem sees_sampleQubicRun {bobs : List Str} (h : bobs ≠ []) (payload : List UInt8) :
    (sampleQubicRun bobs h).Sees payload
      ⟨5, lit "success", [⟨8, 6, 0, [1]⟩, ⟨7, 6, 0, [42]⟩]⟩ := by
  intro i bob R' _ hR'
  have hreceipt : ∀ txHash, QubicLog.receiptAt .sample QubicLog.sampleRpc txHash i bob =
      some (some ⟨5, lit "success", [⟨8, 6, 0, [1]⟩, ⟨7, 6, 0, [42]⟩]⟩) := fun _ => rfl
  exact (Option.some.inj (Option.some.inj ((hreceipt _).symm.trans hR'))).symm

/-- Runs with two sources and with one of them. -/
theorem log_replies_reproducible_fewer_sources :
    let first := sampleEvmRun [lit "a", lit "b"] (by decide)
    let second := sampleEvmRun [lit "b"] (by decide)
    let query := leBytes 8 5 ++ List.replicate 32 7 ++ leBytes 8 7
    (EvmLog.logReply EvmLog.sampleLog).length = 440 ∧
      (second.result = some (oracleUnavail, zeros 440) ∨
        (Replies second.result noError EvmLog.txNotFound ∧
          ∀ j e, second.chain.endpoints[j]? = some e → second.receipt j e = some none) ∨
        second.result = first.result) ∧
      (QubicLog.logReply ⟨7, 6, 0, [42]⟩).length = 288 ∧
      Replies ((sampleQubicRun [lit "a", lit "b"] (by decide)).result query) noError
        QubicLog.success := by
  intro first second query
  have hfirst : first.result = some (noError, EvmLog.logReply EvmLog.sampleLog) := by
    decide +kernel
  have hsecond : second.result = some (noError, EvmLog.logReply EvmLog.sampleLog) := by
    decide +kernel
  have hcode := EvmLog.replyCode_logReply EvmLog.sampleLog
  have hqubic : (sampleQubicRun [lit "a", lit "b"] (by decide)).result query =
      some (noError, QubicLog.logReply ⟨7, 6, 0, [42]⟩) := by decide +kernel
  have hqubic' : (sampleQubicRun [lit "b"] (by decide)).result query =
      some (noError, QubicLog.logReply ⟨7, 6, 0, [42]⟩) := by decide +kernel
  have hcode' := QubicLog.replyCode_logReply ⟨7, 6, 0, [42]⟩
  refine ⟨?_, ?_, ?_, ?_⟩
  · refine ((log_replies_reproducible _).1 first second _ _ _ (sees_sampleEvmRun _)
      (sees_sampleEvmRun _) hfirst hsecond ?_ ?_ ?_ ?_).2 <;> rw [hcode] <;> decide
  · refine (log_replies_reproducible _).2.1 first second _ (sees_sampleEvmRun _)
      (sees_sampleEvmRun _) ⟨_, hfirst, hcode⟩ ?_
    intro j e he
    refine ⟨j + 1, he, ?_⟩
    intro head head' hhead hhead'
    obtain rfl : 32 = head := Option.some.inj hhead
    exact (Option.some.inj hhead').le
  · refine ((log_replies_reproducible query).2.2 _ _ _ _ _ (sees_sampleQubicRun _ _)
      (sees_sampleQubicRun _ _) hqubic hqubic' ?_ ?_).2 <;> rw [hcode'] <;> decide
  · exact ⟨_, hqubic, hcode'⟩

end OracleMachine.Logs
