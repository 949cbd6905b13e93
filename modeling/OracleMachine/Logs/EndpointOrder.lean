import OracleMachine.Logs.Reproducible

/-!
# The order of the endpoints

The loops of the two log services compare every answer with the first one and
stop at the first failure.  Two orders of one list therefore make different calls
and stop at different places.  When every endpoint behaves the same wherever it
stands in the list (`Rpc.Placeless`), the reply is nevertheless a function of the
set of the endpoints: both loops are the agreement loop of the library, which sees
no more than that set.

More endpoints can only take a reply away.  `EvmLog.handleQuery_more` and
`QubicLog.handleQuery_more` say what becomes of a reply with a log.
-/

namespace OracleMachine.Logs

open Lib.Agreement Lib.Bytes Lib.Python

/-- Every endpoint has one behaviour, wherever it stands in the list. -/
def Rpc.Placeless (rpc : Rpc) : Prop :=
  ∀ i j endpoint method params, rpc i endpoint method params = rpc j endpoint method params

/-! ## The EVM service -/

namespace EvmLog

variable {py : Interpreter} {rpc : Rpc}

/-- Two entries of the configuration with the same endpoints, in any order and any
number of times. -/
def Chain.SameEndpoints (chain chain' : Chain) : Prop :=
  chain.minConfirmations = chain'.minConfirmations ∧
    ∀ endpoint, endpoint ∈ chain.endpoints ↔ endpoint ∈ chain'.endpoints

theorem receiptAt_place (hrpc : rpc.Placeless) (txHash : Str) (i j : Nat) (endpoint : Str) :
    receiptAt py rpc txHash i endpoint = receiptAt py rpc txHash j endpoint := by
  unfold receiptAt
  rw [hrpc i j]

/-- The head depends on the endpoint and on the number of confirmations. -/
theorem finalizedHead_place (hrpc : rpc.Placeless) {chain chain' : Chain}
    (hmin : chain.minConfirmations = chain'.minConfirmations) (i j : Nat) (endpoint : Str) :
    finalizedHead py rpc chain i endpoint = finalizedHead py rpc chain' j endpoint := by
  unfold finalizedHead
  rw [hmin, hrpc i j, hrpc i j]

theorem confirm_place (hrpc : rpc.Placeless) {chain chain' : Chain}
    (hmin : chain.minConfirmations = chain'.minConfirmations) (i j : Nat) (endpoint : Str)
    (one : Option Receipt) :
    confirm py rpc chain i endpoint one = confirm py rpc chain' j endpoint one := by
  cases one with
  | none => rfl
  | some receipt => rw [confirm, confirm, finalizedHead_place hrpc hmin i j]

theorem getReceipt_sameEndpoints (hrpc : rpc.Placeless) {chain chain' : Chain}
    (hsame : chain.SameEndpoints chain') (txHash : Str) :
    getReceipt py rpc chain txHash = getReceipt py rpc chain' txHash := by
  have hconfirm : confirm py rpc chain = confirm py rpc chain' := by
    funext i endpoint one
    exact confirm_place hrpc hsame.1 i i endpoint one
  have hagree : agree (receiptAt py rpc txHash) (confirm py rpc chain) chain.endpoints =
      agree (receiptAt py rpc txHash) (confirm py rpc chain') chain'.endpoints := by
    rw [hconfirm]
    exact agree_eq_of_mem_iff (receiptAt_place hrpc txHash)
      (fun i j endpoint one => confirm_place hrpc rfl i j endpoint one) hsame.2
  rw [getReceipt, hagree, getReceipt]

/-- The reply depends on the set of the endpoints of the chain. -/
theorem handleQuery_sameEndpoints (hrpc : rpc.Placeless) {chains chains' : Nat → Option Chain}
    {payload : List UInt8}
    (hsame : Option.Rel Chain.SameEndpoints (chains (unpackQuery payload).first)
      (chains' (unpackQuery payload).first)) :
    handleQuery py rpc chains payload = handleQuery py rpc chains' payload := by
  unfold handleQuery
  split
  · rfl
  · dsimp only
    split
    · rfl
    · generalize chains (unpackQuery payload).first = chain at hsame
      generalize chains' (unpackQuery payload).first = chain' at hsame
      cases hsame with
      | none => rfl
      | some hsame =>
        dsimp only
        rw [getReceipt_sameEndpoints hrpc hsame]

/-- With more endpoints a reply with a log stays, or the service abstains, or the
transaction is no longer final. -/
theorem handleQuery_more (hrpc : rpc.Placeless) {chains chains' : Nat → Option Chain}
    {payload : List UInt8} {chain chain' : Chain}
    (hchain : chains (unpackQuery payload).first = some chain)
    (hchain' : chains' (unpackQuery payload).first = some chain')
    (hmore : chain.endpoints ⊆ chain'.endpoints)
    (hsuccess : Replies (handleQuery py rpc chains payload) noError success) :
    handleQuery py rpc chains' payload = handleQuery py rpc chains payload ∨
      handleQuery py rpc chains' payload = some (oracleUnavail, zeros replySize) ∨
      handleQuery py rpc chains' payload =
        some (noError, codeReply replySize txNotFinalized) := by
  have hlength : payload.length = querySize := by
    by_contra hlength
    rw [handleQuery, if_pos hlength] at hsuccess
    exact not_replies_of_flags (by decide) hsuccess
  obtain ⟨hhash, -⟩ := exists_chain_of_replies hlength (.inl rfl) hsuccess
  rw [handleQuery_eq hlength hhash hchain] at hsuccess ⊢
  rw [handleQuery_eq hlength hhash hchain']
  split at hsuccess
  · exact absurd hsuccess (not_replies_of_flags (by decide))
  · exact absurd hsuccess (not_replies_codeReply (by decide) (by decide))
  · next R finalized hsome =>
    obtain ⟨log, rfl, -⟩ := (replies_success_iff _ _ _).mp hsuccess
    obtain ⟨hall, -, -⟩ := getReceipt_eq_some_iff.mp hsome
    -- an endpoint of the short list, at its place in the long one
    obtain ⟨endpoint, hendpoint⟩ := List.exists_mem_of_ne_nil _ chain.endpoints_ne_nil
    obtain ⟨i, hi⟩ := List.mem_iff_getElem?.mp hendpoint
    obtain ⟨j, hj⟩ := List.mem_iff_getElem?.mp (hmore hendpoint)
    have hR := hall i endpoint hi
    rw [receiptAt_place hrpc _ i j] at hR
    split
    · exact .inr (.inl rfl)
    · next hnone =>
      obtain ⟨-, hall'⟩ := (getReceipt_eq_none_iff _).mp hnone
      exact absurd (hR.symm.trans (hall' j endpoint hj)) (by simp)
    · next R' finalized' hsome' =>
      obtain ⟨hall', -, -⟩ := getReceipt_eq_some_iff.mp hsome'
      obtain rfl : R = R' := by
        have heq := hR.symm.trans (hall' j endpoint hj)
        simpa using heq
      cases finalized' with
      | true => exact .inl rfl
      | false => exact .inr (.inr (if_pos (.inl (by decide))))

end EvmLog

/-! ## The Qubic service -/

namespace QubicLog

open Identity (qubicIdentity)

variable {py : Interpreter} {rpc : Rpc}

theorem receiptAt_place (hrpc : rpc.Placeless) (txHash : Str) (i j : Nat) (bob : Str) :
    receiptAt py rpc txHash i bob = receiptAt py rpc txHash j bob := by
  unfold receiptAt
  rw [hrpc i j]

/-- The reply depends on the set of the bobs. -/
theorem handleQuery_sameBobs (hrpc : rpc.Placeless) {bobs bobs' : List Str}
    (hset : ∀ bob, bob ∈ bobs ↔ bob ∈ bobs') (payload : List UInt8) :
    handleQuery py rpc bobs payload = handleQuery py rpc bobs' payload := by
  have hnil : bobs = [] ↔ bobs' = [] := by
    simp only [List.eq_nil_iff_forall_not_mem, hset]
  have hreceipt : ∀ txHash, getReceipt py rpc bobs txHash = getReceipt py rpc bobs' txHash := by
    intro txHash
    rw [getReceipt, getReceipt,
      agree_eq_of_mem_iff (receiptAt_place hrpc txHash) (fun _ _ _ _ => rfl) hset]
  simp only [handleQuery, hnil, hreceipt]

/-- With more bobs a reply with a log stays, or the service abstains. -/
theorem handleQuery_more (hrpc : rpc.Placeless) {bobs bobs' : List Str} {payload : List UInt8}
    (hmore : bobs ⊆ bobs')
    (hsuccess : Replies (handleQuery py rpc bobs payload) noError success) :
    handleQuery py rpc bobs' payload = handleQuery py rpc bobs payload ∨
      handleQuery py rpc bobs' payload = some (oracleUnavail, zeros replySize) := by
  have hlength : payload.length = querySize := by
    by_contra hlength
    rw [handleQuery, if_pos hlength] at hsuccess
    exact not_replies_of_flags (by decide) hsuccess
  obtain ⟨htick, hhash⟩ := ne_zero_of_replies hlength (by decide) hsuccess
  have hbobs : bobs ≠ [] := by
    rintro rfl
    have hquery : ¬ ((unpackQuery payload).txHash = zeros 32 ∨ (unpackQuery payload).first = 0) :=
      fun h => h.elim hhash htick
    simp only [handleQuery, if_neg (not_not_intro hlength), if_neg hquery, if_pos] at hsuccess
    exact not_replies_of_flags (by decide) hsuccess
  obtain ⟨bob, hbob⟩ := List.exists_mem_of_ne_nil _ hbobs
  have hbobs' : bobs' ≠ [] := List.ne_nil_of_mem (hmore hbob)
  rw [handleQuery_eq hbobs hlength htick hhash] at hsuccess ⊢
  rw [handleQuery_eq hbobs' hlength htick hhash]
  split at hsuccess
  · exact absurd hsuccess (not_replies_of_flags (by decide))
  · exact absurd hsuccess (not_replies_codeReply (by decide) (by decide))
  · next R hsome =>
    have hall := (getReceipt_eq_some_iff hbobs).mp hsome
    -- a bob of the short list, at its place in the long one
    obtain ⟨i, hi⟩ := List.mem_iff_getElem?.mp hbob
    obtain ⟨j, hj⟩ := List.mem_iff_getElem?.mp (hmore hbob)
    have hR := hall i bob hi
    rw [receiptAt_place hrpc _ i j] at hR
    split
    · exact .inr rfl
    · next hnone =>
      have hall' := (getReceipt_eq_some_iff hbobs').mp hnone
      exact absurd (hR.symm.trans (hall' j bob hj)) (by simp)
    · next R' hsome' =>
      have hall' := (getReceipt_eq_some_iff hbobs').mp hsome'
      obtain rfl : R = R' := by
        have heq := hR.symm.trans (hall' j bob hj)
        simpa using heq
      exact .inl rfl

end QubicLog

/-! ## Both services -/

/-- The order of the endpoints does not matter.

* When every endpoint has one behaviour, a service returns the same for every list
  with the same set of endpoints.  For the EVM service the configurations may differ
  for other chains.
* With more endpoints, a reply with a log stays the same, or the service abstains, or
  the EVM service answers that the transaction is not final. -/
theorem endpoint_order_irrelevant (py : Interpreter) (rpc : Rpc) (hrpc : rpc.Placeless)
    (payload : List UInt8) :
    (∀ chains chains' : Nat → Option EvmLog.Chain,
      Option.Rel EvmLog.Chain.SameEndpoints (chains (unpackQuery payload).first)
        (chains' (unpackQuery payload).first) →
      EvmLog.handleQuery py rpc chains payload = EvmLog.handleQuery py rpc chains' payload) ∧
    (∀ bobs bobs' : List Str, (∀ bob, bob ∈ bobs ↔ bob ∈ bobs') →
      QubicLog.handleQuery py rpc bobs payload = QubicLog.handleQuery py rpc bobs' payload) ∧
    (∀ (chains chains' : Nat → Option EvmLog.Chain) (chain chain' : EvmLog.Chain),
      chains (unpackQuery payload).first = some chain →
      chains' (unpackQuery payload).first = some chain' →
      chain.endpoints ⊆ chain'.endpoints →
      Replies (EvmLog.handleQuery py rpc chains payload) noError EvmLog.success →
      EvmLog.handleQuery py rpc chains' payload = EvmLog.handleQuery py rpc chains payload ∨
        EvmLog.handleQuery py rpc chains' payload = some (oracleUnavail, zeros 440) ∨
        EvmLog.handleQuery py rpc chains' payload =
          some (noError, codeReply 440 EvmLog.txNotFinalized)) ∧
    (∀ bobs bobs' : List Str, bobs ⊆ bobs' →
      Replies (QubicLog.handleQuery py rpc bobs payload) noError QubicLog.success →
      QubicLog.handleQuery py rpc bobs' payload = QubicLog.handleQuery py rpc bobs payload ∨
        QubicLog.handleQuery py rpc bobs' payload = some (oracleUnavail, zeros 288)) := by
  refine ⟨?_, ?_, ?_, ?_⟩
  · intro chains chains' hsame
    exact EvmLog.handleQuery_sameEndpoints hrpc hsame
  · intro bobs bobs' hset
    exact QubicLog.handleQuery_sameBobs hrpc hset payload
  · intro chains chains' chain chain' hchain hchain' hmore hsuccess
    exact EvmLog.handleQuery_more hrpc hchain hchain' hmore hsuccess
  · intro bobs bobs' hmore hsuccess
    exact QubicLog.handleQuery_more hrpc hmore hsuccess

/-- Two endpoints in both orders, one of them twice. -/
theorem endpoint_order_irrelevant_swapped :
    let query := leBytes 8 1 ++ List.replicate 32 7 ++ leBytes 8 0
    EvmLog.handleQuery .sample EvmLog.sampleRpc
        (fun _ => some ⟨[lit "a", lit "b"], 0, by decide⟩) query =
      EvmLog.handleQuery .sample EvmLog.sampleRpc
        (fun _ => some ⟨[lit "b", lit "a", lit "b"], 0, by decide⟩) query := by
  intro query
  apply (endpoint_order_irrelevant .sample EvmLog.sampleRpc (fun _ _ _ _ _ => rfl) query).1
  refine .some ⟨rfl, ?_⟩
  intro endpoint
  simp only [List.mem_cons, List.not_mem_nil, or_false]
  constructor
  · rintro (h | h)
    · exact .inr (.inl h)
    · exact .inl h
  · rintro (h | h | h)
    · exact .inr h
    · exact .inl h
    · exact .inr h

end OracleMachine.Logs
