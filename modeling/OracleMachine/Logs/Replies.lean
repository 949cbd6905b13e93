import OracleMachine.Logs.EvmLog
import OracleMachine.Logs.QubicLog

/-!
# The replies of the log oracles

A reply of `read_evm_log` has 440 bytes and one of `read_qubic_log` 288.  Every
computor has to commit to the same bytes, so a failure has one form: zeros under
an error flag, and a code with zeros behind it otherwise (`Canonical`).  A reply
with a log is laid out as the interface documents it (`EvmLayout`,
`QubicLayout`).

* `outcome_evm` and `outcome_qubic`: every query ends in one of three kinds of
  outcome, from which the form of a failure follows once for both services
  (`Outcome.canonical`).
* `evmLayout_logReply` and `qubicLayout_logReply`: the fields of a log stand at
  their offsets and the bytes between them are zero.
* `EvmLayout.unique` and `QubicLayout.unique`: a reply determines the log.
* `log_replies_decode` puts them together for both services.
-/

namespace OracleMachine.Logs

open Lib.Bytes Lib.Python

/-! ## The form of a failure -/

/-- The outcome is a reply of this size, not a failed assertion.  Under an
error flag it is all zeros, and with a code other than zero it is the code with
zeros behind it. -/
def Canonical (size : Nat) (result : Option (UInt16 × List UInt8)) : Prop :=
  ∃ flags reply, result = some (flags, reply) ∧ reply.length = size ∧
    (flags ≠ noError → reply = zeros size) ∧
    (replyCode reply ≠ 0 → reply = leBytes 8 (replyCode reply) ++ zeros (size - 8))

theorem replyCode_zeros (n : Nat) : replyCode (zeros n) = 0 := by
  have hzero (k : Nat) : leVal (List.replicate k 0) = 0 := by
    induction k with
    | zero => rfl
    | succ k ih => rw [List.replicate_succ, leVal, ih]; rfl
  rw [replyCode, zeros, slice, List.drop_replicate, List.take_replicate, hzero]

/-- The three kinds of an outcome: zeros under an error flag, a code that is
not zero, and a reply with a log. -/
def Outcome (size : Nat) (logged : List UInt8 → Prop) (result : Option (UInt16 × List UInt8)) :
    Prop :=
  (∃ flags, flags ≠ noError ∧ result = some (flags, zeros size)) ∨
    (∃ code, code ≠ 0 ∧ code < 2 ^ 64 ∧ result = some (noError, codeReply size code)) ∨
    ∃ reply, logged reply ∧ result = some (noError, reply)

section Outcome

variable {size : Nat} {logged : List UInt8 → Prop} {result : Option (UInt16 × List UInt8)}

theorem Outcome.abstains {flags : UInt16} (hflags : flags ≠ noError) :
    Outcome size logged (some (flags, zeros size)) := .inl ⟨flags, hflags, rfl⟩

theorem Outcome.fails {code : Nat} (hzero : code ≠ 0) (hlt : code < 2 ^ 64) :
    Outcome size logged (some (noError, codeReply size code)) := .inr (.inl ⟨code, hzero, hlt, rfl⟩)

theorem Outcome.canonical (h : Outcome size logged result) (hsize : 8 ≤ size)
    (hlogged : ∀ reply, logged reply → reply.length = size ∧ replyCode reply = 0) :
    Canonical size result := by
  rcases h with ⟨flags, -, rfl⟩ | ⟨code, -, hlt, rfl⟩ | ⟨reply, hreply, rfl⟩
  · exact ⟨flags, zeros size, rfl, length_zeros size, fun _ => rfl,
      fun hcode => absurd (replyCode_zeros size) hcode⟩
  · refine ⟨noError, codeReply size code, rfl, length_codeReply hsize code,
      fun hflags => absurd rfl hflags, fun _ => ?_⟩
    rw [replyCode_codeReply size hlt, codeReply]
  · obtain ⟨hlen, hcode⟩ := hlogged reply hreply
    exact ⟨noError, reply, rfl, hlen, fun hflags => absurd rfl hflags,
      fun hne => absurd hcode hne⟩

/-- Only a reply with a log has neither a flag nor a code. -/
theorem Outcome.logged_of_success {reply : List UInt8} (h : Outcome size logged result)
    (hresult : result = some (noError, reply)) (hcode : replyCode reply = 0) : logged reply := by
  rcases h with ⟨flags, hflags, rfl⟩ | ⟨code, hzero, hlt, rfl⟩ | ⟨reply', hreply, rfl⟩
  · exact absurd (congrArg Prod.fst (Option.some.inj hresult)) hflags
  · have heq : codeReply size code = reply := congrArg Prod.snd (Option.some.inj hresult)
    rw [← heq, replyCode_codeReply size hlt] at hcode
    exact absurd hcode hzero
  · have heq : reply' = reply := congrArg Prod.snd (Option.some.inj hresult)
    rw [← heq]
    exact hreply

end Outcome

/-! ## EVM logs -/

/-- The log of a reply, field by field as the interface documents it, with
zeros between the fields. -/
structure EvmLayout (reply : List UInt8) (log : EvmLog.Log) : Prop where
  code : replyCode reply = EvmLog.success
  addressPad : slice reply 8 12 = zeros 12
  address : slice reply 20 20 = log.address
  topicCount : leVal (slice reply 40 8) = log.topics.length
  topics : ∀ i topic, log.topics[i]? = some topic → slice reply (48 + 32 * i) 32 = topic
  topicsPad : slice reply (48 + 32 * log.topics.length) (32 * (4 - log.topics.length)) =
    zeros (32 * (4 - log.topics.length))
  dataLen : leVal (slice reply 176 8) = log.data.length
  data : slice reply 184 log.data.length = log.data
  dataPad : slice reply (184 + log.data.length) (256 - log.data.length) =
    zeros (256 - log.data.length)

section Evm

variable {log log' : EvmLog.Log}

/-- The part of a reply before the topics. -/
def evmHead (log : EvmLog.Log) : List UInt8 :=
  leBytes 8 EvmLog.success ++ zeros 12 ++ log.address ++ leBytes 8 log.topics.length

/-- The topics with their padding. -/
def evmTopics (log : EvmLog.Log) : List UInt8 :=
  log.topics.flatten ++ zeros (32 * (4 - log.topics.length))

theorem length_evmHead (log : EvmLog.Log) : (evmHead log).length = 48 := by
  simp only [evmHead, List.length_append, length_leBytes, length_zeros, log.length_address]

theorem length_evmTopics (htopics : log.topics.length ≤ 4) : (evmTopics log).length = 128 := by
  rw [evmTopics, List.length_append, EvmLog.length_flatten_topics, length_zeros]
  omega

theorem logReply_eq (log : EvmLog.Log) :
    EvmLog.logReply log = evmHead log ++ evmTopics log ++ (leBytes 8 log.data.length ++
      log.data ++ zeros (256 - log.data.length)) := by
  simp only [EvmLog.logReply, evmHead, evmTopics, List.append_assoc]

theorem evmLayout_logReply (htopics : log.topics.length ≤ 4) (hdata : log.data.length ≤ 256) :
    EvmLayout (EvmLog.logReply log) log := by
  have hcount : log.topics.length < 256 ^ 8 := by omega
  have hlen : log.data.length < 256 ^ 8 := by omega
  have hhead := length_evmHead log
  have hfront : (evmHead log ++ evmTopics log).length = 176 := by
    rw [List.length_append, hhead, length_evmTopics htopics]
  -- each field is the middle of three parts, the first of which ends at its offset
  refine ⟨EvmLog.replyCode_logReply log, ?_, ?_, ?_, ?_, ?_, ?_, ?_, ?_⟩
  · rw [logReply_eq, evmHead]
    simp only [List.append_assoc]
    rw [← List.append_assoc]
    exact slice_middle (length_leBytes _ _) (length_zeros _) _
  · rw [logReply_eq, evmHead, List.append_assoc, List.append_assoc]
    exact slice_middle (by simp) log.length_address _
  · rw [logReply_eq, evmHead, List.append_assoc,
      slice_middle (by simp [log.length_address]) (length_leBytes _ _), leVal_leBytes hcount]
  · intro i topic htopic
    have hi : i < log.topics.length := (List.getElem?_eq_some_iff.mp htopic).1
    have hflat := EvmLog.length_flatten_topics log
    rw [logReply_eq, List.append_assoc, slice_append_right (by omega), hhead, evmTopics,
      List.append_assoc, Nat.add_sub_cancel_left,
      slice_of_isPrefix (List.prefix_append _ _) (by omega)]
    exact slice_flatten log.length_topics htopic
  · have hused : (evmHead log ++ log.topics.flatten).length = 48 + 32 * log.topics.length := by
      rw [List.length_append, hhead, EvmLog.length_flatten_topics]
    rw [logReply_eq, evmTopics, ← List.append_assoc (evmHead log)]
    exact slice_middle hused (length_zeros _) _
  · rw [logReply_eq, List.append_assoc (leBytes 8 log.data.length), ← List.append_assoc,
      slice_middle hfront (length_leBytes _ _), leVal_leBytes hlen]
  · rw [logReply_eq, ← List.append_assoc, ← List.append_assoc]
    exact slice_middle (by rw [List.length_append, hfront, length_leBytes]) rfl _
  · have hused : (evmHead log ++ evmTopics log ++ (leBytes 8 log.data.length ++ log.data)).length =
        184 + log.data.length := by
      rw [List.length_append, hfront, List.length_append, length_leBytes]
      omega
    rw [logReply_eq, ← List.append_assoc, ← List.append_nil (_ ++ zeros _)]
    exact slice_middle hused (length_zeros _) _

/-- A reply is laid out for one log only. -/
theorem EvmLayout.unique {reply : List UInt8} (h : EvmLayout reply log)
    (h' : EvmLayout reply log') : log = log' := by
  have haddress : log.address = log'.address := h.address.symm.trans h'.address
  have hcount : log.topics.length = log'.topics.length := h.topicCount.symm.trans h'.topicCount
  have htopics : log.topics = log'.topics := by
    apply List.ext_getElem hcount
    intro i hi hi'
    rw [← h.topics i _ (List.getElem?_eq_getElem hi), ← h'.topics i _ (List.getElem?_eq_getElem hi')]
  have hlen : log.data.length = log'.data.length := h.dataLen.symm.trans h'.dataLen
  have hdata : log.data = log'.data := by rw [← h.data, ← h'.data, hlen]
  cases log
  cases log'
  cases haddress
  cases htopics
  cases hdata
  rfl

/-- The reply with a log that passed normalisation and the checks. -/
def EvmLogged (py : Interpreter) (rpc : Rpc) (chains : Nat → Option EvmLog.Chain)
    (payload reply : List UInt8) : Prop :=
  ∃ log, EvmLog.Passes py rpc chains payload log ∧ reply = EvmLog.logReply log

theorem outcome_evm (py : Interpreter) (rpc : Rpc) (chains : Nat → Option EvmLog.Chain)
    (payload : List UInt8) :
    Outcome 440 (EvmLogged py rpc chains payload) (EvmLog.handleQuery py rpc chains payload) := by
  unfold EvmLog.handleQuery
  split
  · exact .abstains (by decide)
  next hlength =>
  dsimp only
  split
  · exact .fails (by decide) (by decide)
  next hhash =>
  split
  · exact .fails (by decide) (by decide)
  next chain hchain =>
  split
  · exact .abstains (by decide)
  · exact .fails (by decide) (by decide)
  next receipt finalized hreceipt =>
  rcases EvmLog.answer_cases receipt finalized (unpackQuery payload).last with
    ⟨log, hlog⟩ | ⟨code, hmem, heq⟩ | heq
  · have hpasses : EvmLog.Passes py rpc chains payload log :=
      (EvmLog.passes_iff (Decidable.not_not.mp hlength)).mpr
        (EvmLog.allHave_of_getReceipt hhash hchain hreceipt hlog)
    exact .inr (.inr ⟨EvmLog.logReply log, ⟨log, hpasses, rfl⟩, EvmLog.answer_eq_logReply hlog⟩)
  · obtain ⟨hlt, hzero, -⟩ := EvmLog.failureCode_ne code hmem
    rw [heq]
    exact .fails hzero hlt
  · rw [heq]
    exact .abstains (by decide)

/-- What is known of the sizes of a log that passes. -/
theorem evmSizes_of_passes {py : Interpreter} {rpc : Rpc} {chains : Nat → Option EvmLog.Chain}
    {payload : List UInt8} (h : EvmLog.Passes py rpc chains payload log) :
    log.topics.length ≤ 4 ∧ log.data.length ≤ 256 := by
  obtain ⟨-, _, _, -, -, -, -, -, hsizes⟩ := h
  exact hsizes

end Evm

/-! ## Qubic logs -/

/-- The log of a reply, field by field as the interface documents it, with
zeros behind the data. -/
structure QubicLayout (reply : List UInt8) (log : QubicLog.Log) : Prop where
  code : replyCode reply = QubicLog.success
  fields : QubicLog.Holds reply log
  dataPad : slice reply (32 + log.data.length) (256 - log.data.length) =
    zeros (256 - log.data.length)

section Qubic

variable {log log' : QubicLog.Log}

theorem qubicLayout_logReply (hdata : log.data.length ≤ 256) :
    QubicLayout (QubicLog.logReply log) log := by
  refine ⟨QubicLog.replyCode_logReply log, QubicLog.holds_logReply hdata, ?_⟩
  rw [QubicLog.logReply, ← List.append_nil (_ ++ zeros _)]
  refine slice_middle ?_ (length_zeros _) _
  simp only [List.length_append, length_leBytes]

/-- A reply is laid out for logs with one content only.  The id of a log is not
in the reply: it is in the query. -/
theorem QubicLayout.unique {reply : List UInt8} (h : QubicLayout reply log)
    (h' : QubicLayout reply log') :
    log.contractIndex = log'.contractIndex ∧ log.logType = log'.logType ∧
      log.data = log'.data := by
  obtain ⟨hindex, htype, hlen, hdata⟩ := h.fields
  obtain ⟨hindex', htype', hlen', hdata'⟩ := h'.fields
  refine ⟨UInt64.toNat_inj.mp (hindex.symm.trans hindex'),
    UInt64.toNat_inj.mp (htype.symm.trans htype'), ?_⟩
  rw [← hdata, ← hdata', ← hlen, ← hlen']

/-- The reply with a log that passed normalisation and the checks. -/
def QubicLogged (py : Interpreter) (rpc : Rpc) (bobs : List Str) (payload reply : List UInt8) :
    Prop :=
  ∃ log, QubicLog.Passes py rpc bobs payload log ∧ reply = QubicLog.logReply log

theorem outcome_qubic (py : Interpreter) (rpc : Rpc) (bobs : List Str) (payload : List UInt8) :
    Outcome 288 (QubicLogged py rpc bobs payload) (QubicLog.handleQuery py rpc bobs payload) := by
  unfold QubicLog.handleQuery
  split
  · exact .abstains (by decide)
  next hlength =>
  dsimp only
  split
  · exact .fails (by decide) (by decide)
  next hquery =>
  split
  · exact .abstains (by decide)
  next hbobs =>
  split
  · exact .abstains (by decide)
  · exact .fails (by decide) (by decide)
  next receipt hreceipt =>
  rcases QubicLog.answer_cases receipt (unpackQuery payload).first (unpackQuery payload).last with
    ⟨log, hlog⟩ | ⟨code, hmem, heq⟩
  · obtain ⟨hhash, htick⟩ := not_or.mp hquery
    have hpasses : QubicLog.Passes py rpc bobs payload log :=
      QubicLog.passes_of_getReceipt (Decidable.not_not.mp hlength) hbobs htick hhash hreceipt hlog
    exact .inr (.inr ⟨QubicLog.logReply log, ⟨log, hpasses, rfl⟩,
      QubicLog.answer_eq_logReply hlog⟩)
  · obtain ⟨hlt, hzero, -⟩ := QubicLog.failureCode_ne code hmem
    rw [heq]
    exact .fails hzero hlt

/-- What is known of the size of a log that passes. -/
theorem qubicSize_of_passes {py : Interpreter} {rpc : Rpc} {bobs : List Str}
    {payload : List UInt8} (h : QubicLog.Passes py rpc bobs payload log) :
    log.data.length ≤ 256 := by
  obtain ⟨-, -, -, _, -, -, -, -, hsize⟩ := h
  exact hsize

end Qubic

/-! ## Both services -/

/-- For both services, every query and every behaviour of the endpoints:

* the reply has the size of the interface, the assertion on it holds, and
  failures are canonical;
* a reply that has neither a flag nor a code is laid out for a log that passed
  normalisation and the checks;
* a query of 48 bytes for a log that passes is answered with a reply that is laid out
  for this log;
* a reply is laid out for one log only. -/
theorem log_replies_decode :
    (∀ py rpc chains payload,
      Canonical 440 (EvmLog.handleQuery py rpc chains payload) ∧
      (∀ reply, EvmLog.handleQuery py rpc chains payload = some (noError, reply) →
        replyCode reply = EvmLog.success →
        ∃ log, EvmLog.Passes py rpc chains payload log ∧ EvmLayout reply log) ∧
      ∀ log, payload.length = 48 → EvmLog.Passes py rpc chains payload log →
        ∃ reply, EvmLog.handleQuery py rpc chains payload = some (noError, reply) ∧
          EvmLayout reply log) ∧
    (∀ (reply : List UInt8) (log log' : EvmLog.Log),
      EvmLayout reply log → EvmLayout reply log' → log = log') ∧
    (∀ py rpc bobs payload,
      Canonical 288 (QubicLog.handleQuery py rpc bobs payload) ∧
      (∀ reply, QubicLog.handleQuery py rpc bobs payload = some (noError, reply) →
        replyCode reply = QubicLog.success →
        ∃ log, QubicLog.Passes py rpc bobs payload log ∧ QubicLayout reply log) ∧
      ∀ log, payload.length = 48 → QubicLog.Passes py rpc bobs payload log →
        ∃ reply, QubicLog.handleQuery py rpc bobs payload = some (noError, reply) ∧
          QubicLayout reply log) ∧
    (∀ (reply : List UInt8) (log log' : QubicLog.Log),
      QubicLayout reply log → QubicLayout reply log' →
        log.contractIndex = log'.contractIndex ∧ log.logType = log'.logType ∧
          log.data = log'.data) := by
  refine ⟨?_, fun _ _ _ => EvmLayout.unique, ?_, fun _ _ _ => QubicLayout.unique⟩
  · intro py rpc chains payload
    have houtcome := outcome_evm py rpc chains payload
    refine ⟨houtcome.canonical (by decide) ?_, ?_, ?_⟩
    · rintro reply ⟨log, hpasses, rfl⟩
      obtain ⟨htopics, hdata⟩ := evmSizes_of_passes hpasses
      exact ⟨EvmLog.length_logReply htopics hdata, EvmLog.replyCode_logReply log⟩
    · intro reply hreply hcode
      obtain ⟨log, hpasses, rfl⟩ := houtcome.logged_of_success hreply hcode
      obtain ⟨htopics, hdata⟩ := evmSizes_of_passes hpasses
      exact ⟨log, hpasses, evmLayout_logReply htopics hdata⟩
    · intro log hlength hpasses
      obtain ⟨htopics, hdata⟩ := evmSizes_of_passes hpasses
      exact ⟨EvmLog.logReply log,
        EvmLog.handleQuery_of_allHave hlength ((EvmLog.passes_iff hlength).mp hpasses),
        evmLayout_logReply htopics hdata⟩
  · intro py rpc bobs payload
    have houtcome := outcome_qubic py rpc bobs payload
    refine ⟨houtcome.canonical (by decide) ?_, ?_, ?_⟩
    · rintro reply ⟨log, hpasses, rfl⟩
      exact ⟨QubicLog.length_logReply (qubicSize_of_passes hpasses),
        QubicLog.replyCode_logReply log⟩
    · intro reply hreply hcode
      obtain ⟨log, hpasses, rfl⟩ := houtcome.logged_of_success hreply hcode
      exact ⟨log, hpasses, qubicLayout_logReply (qubicSize_of_passes hpasses)⟩
    · intro log hlength hpasses
      exact ⟨QubicLog.logReply log, QubicLog.handleQuery_of_passes hlength hpasses,
        qubicLayout_logReply (qubicSize_of_passes hpasses)⟩

/-- A log whose topic is zeros and one behind another log are answered and read back. -/
theorem log_replies_decode_samples :
    (∃ reply, EvmLog.handleQuery .sample EvmLog.sampleRpc EvmLog.sampleChains
        EvmLog.sampleQuery = some (noError, reply) ∧ EvmLayout reply EvmLog.sampleLog) ∧
    ∃ reply, QubicLog.handleQuery .sample QubicLog.sampleRpc [lit "a", lit "b"]
        QubicLog.sampleQuery = some (noError, reply) ∧ QubicLayout reply ⟨7, 6, 0, [42]⟩ :=
  ⟨(log_replies_decode.1 _ _ _ _).2.2 _ (by decide) EvmLog.passes_sampleLog,
    (log_replies_decode.2.2.1 _ _ _ _).2.2 _ (by decide) QubicLog.passes_sampleLog⟩

end OracleMachine.Logs
