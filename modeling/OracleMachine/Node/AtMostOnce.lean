import OracleMachine.Node.Retries

/-!
# A request is delivered at most once

What `processQueryRequest` does in all of its attempts together.

* `LoopTurn` says once what a turn of the loop can be; everything below is
  derived from it.
* `History` says what the attempts of one request can be: some that are
  retried, each of which sent a proper prefix of the query, and at most one
  more.  `history_attemptLoop` is the run of the loop, and `atMostOnce` is read
  off it.
* `Reaches` is the attempt that sends the query in terms of the environment
  alone, and `exists_turn_iff` the connection to the attempts of the loop.
* `delivered_once_iff` is the result.  `sendAndReceive` reads the header of the
  reply into a variable of its own and never copies it, so the result of a
  successful request does not hold the bytes that were read
  (`header_is_left_out`).
-/

namespace OracleMachine.Node.Retries

open Network Network.Wire

variable {σ : Type} [Socket σ]

/-! ## One turn of the loop -/

/-- A session that `connect` does not keep. -/
def Inactive (session : Option (Session σ)) : Prop :=
  ∀ s, session = some s → s.active = false

/-- An attempt that is retried leaves an inactive session behind. -/
theorem inactive_exchange (core : Core) {s : Session (Tap σ)} (hsound : Sound (some s))
    (query : List UInt8) (env : Conditions σ) (result : InterfaceQueryResult)
    (h : (exchange core s query env.tap result).1 = 0) :
    (exchange core s query env.tap result).2.2.active = false := by
  unfold exchange at h ⊢
  simp only at h ⊢
  by_cases hactive : (env.tap.beforeCheck.apply s).active = true
  · rw [if_neg (by simp [Session.isActive, hactive])] at h ⊢
    have hopen : s.isOpen = true := hsound s rfl (active_of_apply hactive)
    split at h
    · -- behind the send the answer is not `0`
      obtain ⟨-, -, hreceives⟩ := record_receiveReply core
        ((env.tap.beforeSend.apply (env.tap.beforeCheck.apply s)).sendData query).2 env result
      rw [h] at hreceives
      cases hreceives
    · rename_i hsent
      rw [if_neg hsent]
      apply Session.active_close
      rw [Session.isOpen_sendData, apply_isOpen, apply_isOpen, hopen]
  · rw [if_pos (by simpa [Session.isActive] using hactive)]
    simpa using hactive

omit [Socket σ] in
/-- An attempt puts on its connection what it adds to the record. -/
theorem put_turn {rc : Option Int} {s s' : Session (Tap σ)} {bs : List UInt8}
    (h : s'.sock.sent = s.sock.sent ++ bs) :
    Turn.put { rc := rc, before := some s, after := some s' } = bs := by
  show s'.sock.sent.drop s.sock.sent.length = bs
  rw [h, List.drop_left]

omit [Socket σ] in
/-- An attempt reads from its connection what it adds to the record. -/
theorem got_turn {rc : Option Int} {s s' : Session (Tap σ)} {bs : List UInt8}
    (h : s'.sock.read = s.sock.read ++ bs) :
    Turn.got { rc := rc, before := some s, after := some s' } = bs := by
  show s'.sock.read.drop s.sock.read.length = bs
  rw [h, List.drop_left]

/-- What a turn of the loop can be.  `connect` fails; or the connection takes the
query, and the turn is the last one; or it is retried, and the loop goes on
with a session that is given up. -/
inductive LoopTurn (core : Core) (query : List UInt8) (left : Nat) (envs : Nat → Conditions σ)
    (session : Option (Session (Tap σ))) (result : InterfaceQueryResult) :
    Outcome (Tap σ) → Prop where
  | refused (hconnect : connect session (envs 0).tap = (false, none)) :
      LoopTurn core query left envs session result
        { returned := false, result, session := none, turns := [⟨none, none, none⟩] }
  | ended (s s' : Session (Tap σ)) (rc : Int) (result' : InterfaceQueryResult)
      (hconnect : connect session (envs 0).tap = (true, some s))
      (htakes : Takes query (envs 0).tap s)
      (hput : Turn.put ⟨some rc, some s, some s'⟩ = query)
      (hgot : Turn.got ⟨some rc, some s, some s'⟩ = delivered core query (envs 0).tap s)
      (hreceives : Receives core result (delivered core query (envs 0).tap s) rc result') :
      LoopTurn core query left envs session result
        { returned := rc = 1, result := result', session := some s'
          turns := [⟨some rc, some s, some s'⟩] }
  | retried (s s' : Session (Tap σ))
      (hconnect : connect session (envs 0).tap = (true, some s))
      (htakes : ¬ Takes query (envs 0).tap s)
      (hpart : Turn.put ⟨some 0, some s, some s'⟩ <+: query)
      (hne : Turn.put ⟨some 0, some s, some s'⟩ ≠ query) (hinactive : Inactive (some s')) :
      LoopTurn core query left envs session result
        ((attemptLoop core query left (fun k => (envs (k + 1)).tap) (some s') result).behind
          ⟨some 0, some s, some s'⟩)

theorem loopTurn_of_connect (core : Core) {query : List UInt8} (hquery : query ≠ [])
    (left : Nat) (envs : Nat → Conditions σ) {session : Option (Session (Tap σ))}
    {s : Session (Tap σ)} (hconnect : connect session (envs 0).tap = (true, some s))
    (hsound : Sound (some s)) (result : InterfaceQueryResult) :
    LoopTurn core query left envs session result
      (attemptLoop core query (left + 1) (fun k => (envs k).tap) session result) := by
  have hexchange := record_exchange core s hquery (envs 0) result
  have hinactive := inactive_exchange core hsound query (envs 0) result
  cases hout : exchange core s query (envs 0).tap result with
  | mk rc out =>
  obtain ⟨result', s'⟩ := out
  rw [attemptLoop_connected hconnect hout]
  rw [hout] at hexchange hinactive
  cases hexchange with
  | retried done htakes hpart hne hsent =>
    rw [← put_turn hsent] at hpart hne
    apply LoopTurn.retried s s' hconnect htakes hpart hne
    intro s'' hs''
    rw [← Option.some.inj hs'']
    exact hinactive rfl
  | received _ _ htakes hsent hread hreceives =>
    have hended := @LoopTurn.ended σ _ core query left envs session result s s' rc result'
      hconnect htakes (put_turn hsent) (got_turn hread) hreceives
    cases hreceives with
    | complete header payload hreply => exact hended
    | incomplete _ hvalid hreply => exact hended

theorem loopTurn_attemptLoop (core : Core) {query : List UInt8} (hquery : query ≠ [])
    (left : Nat) (envs : Nat → Conditions σ) {session : Option (Session (Tap σ))}
    (hsound : Sound session) (result : InterfaceQueryResult) :
    LoopTurn core query left envs session result
      (attemptLoop core query (left + 1) (fun k => (envs k).tap) session result) := by
  have hconnected := sound_connect hsound (envs 0).tap
  rcases connect_cases session (envs 0).tap with hc | ⟨s, -, -, hc⟩ | ⟨sock, -, hc⟩
  · rw [attemptLoop_refused hc]
    exact .refused hc
  · rw [hc] at hconnected
    exact loopTurn_of_connect core hquery left envs hc hconnected result
  · rw [hc] at hconnected
    exact loopTurn_of_connect core hquery left envs hc hconnected result

/-! ## The attempts of a request -/

/-- What the attempts of a request can be, and what the request then returns:
attempts that are retried, and then none, a failed `connect`, a complete reply
or a failure behind the query. -/
inductive History (core : Core) (query : List UInt8) :
    List (Turn (Tap σ)) → Bool → InterfaceQueryResult → Prop where
  | exhausted : History core query [] false emptyResult
  | refused (turn : Turn (Tap σ)) (hrc : turn.rc = none) (hput : turn.put = [])
      (hgot : turn.got = []) :
      History core query [turn] false emptyResult
  | answered (turn : Turn (Tap σ)) (header : RequestResponseHeader) (payload : List UInt8)
      (hrc : turn.rc = some 1) (hput : turn.put = query)
      (hreply : IsReply core header payload turn.got) :
      History core query [turn] true
        { replyData := List.replicate 8 0 ++ payload, valid := true }
  | failed (turn : Turn (Tap σ)) (result : InterfaceQueryResult) (hrc : turn.rc = some (-1))
      (hput : turn.put = query) (hvalid : result.valid = false)
      (hreply : ∀ header payload, IsReply core header payload turn.got → payload = []) :
      History core query [turn] false result
  | retried (turn : Turn (Tap σ)) (turns : List (Turn (Tap σ))) (returned : Bool)
      (result : InterfaceQueryResult) (hrc : turn.rc = some 0) (hpart : turn.put <+: query)
      (hne : turn.put ≠ query) (rest : History core query turns returned result) :
      History core query (turn :: turns) returned result

/-- The run of the loop. -/
theorem history_attemptLoop (core : Core) {query : List UInt8} (hquery : query ≠ [])
    (left : Nat) (envs : Nat → Conditions σ) {session : Option (Session (Tap σ))}
    (hsound : Sound session) {out : Outcome (Tap σ)}
    (hout : attemptLoop core query left (fun k => (envs k).tap) session emptyResult = out) :
    History core query out.turns out.returned out.result := by
  induction left generalizing envs session out with
  | zero =>
    rw [← hout]
    exact .exhausted
  | succ left ih =>
    have hturn := loopTurn_attemptLoop core hquery left envs hsound emptyResult
    rw [hout] at hturn
    cases hturn with
    | refused hconnect => exact .refused ⟨none, none, none⟩ rfl rfl rfl
    | ended s s' rc result' hconnect htakes hput hgot hreceives =>
      rw [← hgot] at hreceives
      cases hreceives with
      | complete header payload hreply =>
        rw [overwrite_emptyResult]
        exact .answered ⟨some 1, some s, some s'⟩ header payload rfl hput hreply
      | incomplete _ hvalid hreply =>
        exact .failed ⟨some (-1), some s, some s'⟩ result' rfl hput hvalid hreply
    | retried s s' hconnect htakes hpart hne hinactive =>
      exact .retried ⟨some 0, some s, some s'⟩ _ _ _ rfl hpart hne
        (ih (fun k => envs (k + 1)) (sound_inactive (hinactive s' rfl)) rfl)

theorem length_turns_le (core : Core) {query : List UInt8} (hquery : query ≠ []) (left : Nat)
    (envs : Nat → Conditions σ) {session : Option (Session (Tap σ))} (hsound : Sound session)
    (result : InterfaceQueryResult) {out : Outcome (Tap σ)}
    (hout : attemptLoop core query left (fun k => (envs k).tap) session result = out) :
    out.turns.length ≤ left := by
  induction left generalizing envs session out with
  | zero =>
    rw [← hout]
    exact Nat.le_refl 0
  | succ left ih =>
    have hturn := loopTurn_attemptLoop core hquery left envs hsound result
    rw [hout] at hturn
    cases hturn with
    | refused hconnect => exact Nat.succ_le_succ (Nat.zero_le left)
    | ended s s' rc result' hconnect htakes hput hgot hreceives =>
      exact Nat.succ_le_succ (Nat.zero_le left)
    | retried s s' hconnect htakes hpart hne hinactive =>
      exact Nat.succ_le_succ
        (ih (fun k => envs (k + 1)) (sound_inactive (hinactive s' rfl)) rfl)

section history

variable {core : Core} {query : List UInt8} {turns : List (Turn (Tap σ))} {returned : Bool}
    {result : InterfaceQueryResult}

omit [Socket σ]

/-- Every attempt puts a prefix of the query on its connection. -/
theorem History.put_part (h : History core query turns returned result) :
    ∀ turn ∈ turns, turn.put <+: query := by
  induction h with
  | exhausted => simp
  | refused turn hrc hput hgot =>
    intro t ht
    rw [List.mem_singleton.mp ht, hput]
    exact List.nil_prefix
  | answered turn header payload hrc hput hreply =>
    intro t ht
    rw [List.mem_singleton.mp ht]
    exact ⟨[], by rw [List.append_nil, hput]⟩
  | failed turn result hrc hput hvalid hreply =>
    intro t ht
    rw [List.mem_singleton.mp ht]
    exact ⟨[], by rw [List.append_nil, hput]⟩
  | retried turn turns returned result hrc hpart hne rest ih =>
    intro t ht
    cases ht with
    | head => exact hpart
    | tail _ ht => exact ih t ht

/-- At most one attempt puts the whole query on its connection. -/
theorem History.put_once (h : History core query turns returned result) :
    (turns.filter (fun turn => turn.put = query)).length ≤ 1 := by
  induction h with
  | retried turn turns returned result hrc hpart hne rest ih =>
    rwa [List.filter_cons_of_neg (by simpa using hne)]
  | _ => exact List.length_filter_le _ _ |>.trans (by simp)

/-- The whole query is put on the connection in an attempt that answers `1` or `-1`, and in
no other. -/
theorem History.put_iff (h : History core query turns returned result) (hquery : query ≠ []) :
    ∀ turn ∈ turns, turn.put = query ↔ turn.rc = some 1 ∨ turn.rc = some (-1) := by
  induction h with
  | exhausted => simp
  | refused turn hrc hput hgot => simp [hrc, hput, hquery.symm]
  | answered turn header payload hrc hput hreply => simp [hrc, hput]
  | failed turn result hrc hput hvalid hreply => simp [hrc, hput]
  | retried turn turns returned result hrc hpart hne rest ih =>
    intro t ht
    cases ht with
    | head => simp [hrc, hne]
    | tail _ ht => exact ih t ht

/-- The request returns `true` exactly when an attempt answers `1`. -/
theorem History.returned_iff (h : History core query turns returned result) :
    returned = true ↔ ∃ turn ∈ turns, turn.rc = some 1 := by
  induction h with
  | exhausted => simp
  | refused turn hrc hput hgot => simp [hrc]
  | answered turn header payload hrc hput hreply => simp [hrc]
  | failed turn result hrc hput hvalid hreply => simp [hrc]
  | retried turn turns returned result hrc hpart hne rest ih =>
    rw [ih]
    simp [hrc]

/-- An attempt that answers `1` has sent the query and read a complete reply,
and the result holds its payload. -/
theorem History.of_rc (h : History core query turns returned result) :
    ∀ turn ∈ turns, turn.rc = some 1 → turn.put = query ∧
      ∃ header payload, IsReply core header payload turn.got ∧
        result = { replyData := List.replicate 8 0 ++ payload, valid := true } := by
  induction h with
  | exhausted => simp
  | refused turn hrc hput hgot => simp [hrc]
  | answered turn header payload hrc hput hreply =>
    intro t ht _
    rw [List.mem_singleton.mp ht]
    exact ⟨hput, header, payload, hreply, rfl⟩
  | failed turn result hrc hput hvalid hreply => simp [hrc]
  | retried turn turns returned result hrc hpart hne rest ih =>
    intro t ht hone
    cases ht with
    | head => simp [hrc] at hone
    | tail _ ht => exact ih t ht hone

/-- An attempt that has sent the query and read a complete reply with a
payload answers `1`. -/
theorem History.rc_of_reply (h : History core query turns returned result) :
    ∀ turn ∈ turns, turn.put = query → ∀ header payload,
      IsReply core header payload turn.got → payload ≠ [] → turn.rc = some 1 := by
  induction h with
  | exhausted => simp
  | refused turn hrc hput hgot =>
    intro t ht _ header payload hreply
    rw [List.mem_singleton.mp ht, hgot] at hreply
    have hlength := congrArg List.length hreply.1
    rw [List.length_append, header.length_bytes, List.length_nil] at hlength
    omega
  | answered turn header payload hrc hput hreply =>
    intro t ht _ _ _ _ _
    rw [List.mem_singleton.mp ht, hrc]
  | failed turn result hrc hput hvalid hreply =>
    intro t ht _ header payload hreply' hne
    rw [List.mem_singleton.mp ht] at hreply'
    exact absurd (hreply header payload hreply') hne
  | retried turn turns returned result hrc hpart hne rest ih =>
    intro t ht hput
    cases ht with
    | head => exact absurd hput hne
    | tail _ ht => exact ih t ht hput

/-- A request that does not return `true` leaves a result that is not valid. -/
theorem History.valid_eq (h : History core query turns returned result) :
    result.valid = returned := by
  induction h with
  | exhausted => rfl
  | refused turn hrc hput hgot => rfl
  | answered turn header payload hrc hput hreply => rfl
  | failed turn result hrc hput hvalid hreply => exact hvalid
  | retried turn turns returned result hrc hpart hne rest ih => exact ih

end history

/-! ## Every retry is on a new connection -/

omit [Socket σ] in
theorem sentOn_connect {session : Option (Session (Tap σ))} (h : Inactive session)
    (env : Conditions σ) : sentOn (connect session env.tap).2 = [] := by
  rcases connect_cases session env.tap with hc | ⟨s, hs, hactive, -⟩ | ⟨sock, hsock, hc⟩
  · rw [hc]
    rfl
  · rw [h s hs] at hactive
    simp at hactive
  · obtain ⟨inner, -, rfl⟩ := Option.map_eq_some_iff.mp hsock
    rw [hc]
    rfl

/-- A loop that starts without an active session makes every attempt on a new
connection. -/
theorem sentOn_before (core : Core) {query : List UInt8} (hquery : query ≠ []) (left : Nat)
    (envs : Nat → Conditions σ) {session : Option (Session (Tap σ))}
    (hinactive : Inactive session) (result : InterfaceQueryResult) {out : Outcome (Tap σ)}
    (hout : attemptLoop core query left (fun k => (envs k).tap) session result = out) :
    ∀ turn ∈ out.turns, sentOn turn.before = [] := by
  induction left generalizing envs session out with
  | zero =>
    rw [← hout]
    simp [attemptLoop]
  | succ left ih =>
    have hsound : Sound session := by
      intro s hs hactive
      rw [hinactive s hs] at hactive
      simp at hactive
    have hfresh := sentOn_connect hinactive (envs 0)
    have hturn := loopTurn_attemptLoop core hquery left envs hsound result
    rw [hout] at hturn
    intro turn hmem
    cases hturn with
    | refused hconnect =>
      rw [List.mem_singleton.mp hmem]
      rfl
    | ended s s' rc result' hconnect htakes hput hgot hreceives =>
      rw [List.mem_singleton.mp hmem]
      rwa [hconnect] at hfresh
    | retried s s' hconnect htakes hpart hne hinactive' =>
      rcases List.mem_cons.mp hmem with hmem | hmem
      · rw [hmem]
        rwa [hconnect] at hfresh
      · exact ih (fun k => envs (k + 1)) hinactive' rfl turn hmem

/-- Every attempt but the first starts on a new connection. -/
theorem sentOn_before_retry (core : Core) {query : List UInt8} (hquery : query ≠ [])
    (left : Nat) (envs : Nat → Conditions σ) {session : Option (Session (Tap σ))}
    (hsound : Sound session) (result : InterfaceQueryResult) {out : Outcome (Tap σ)}
    (hout : attemptLoop core query (left + 1) (fun k => (envs k).tap) session result = out) :
    ∀ turn ∈ out.turns.tail, sentOn turn.before = [] := by
  have hturn := loopTurn_attemptLoop core hquery left envs hsound result
  rw [hout] at hturn
  intro turn hmem
  cases hturn with
  | refused hconnect => simp at hmem
  | ended s s' rc result' hconnect htakes hput hgot hreceives => simp at hmem
  | retried s s' hconnect htakes hpart hne hinactive =>
    exact sentOn_before core hquery left (fun k => envs (k + 1)) hinactive result rfl turn hmem

/-! ## The attempts by the environment -/

omit [Socket σ] in
/-- `connect` gives an inactive session up. -/
theorem connect_inactive {session : Option (Session σ)} (h : Inactive session)
    (env : Conditions σ) : connect session env = connect none env := by
  cases session with
  | none => rfl
  | some s =>
    show (if s.active then (true, some s) else reconnect env) = reconnect env
    rw [if_neg (by simp [h s rfl])]

omit [Socket σ] in
theorem sessionAt_succ {session : Option (Session σ)} (h : Inactive session)
    (envs : Nat → Conditions σ) (start : Option (Session σ)) (k : Nat) :
    sessionAt start envs (k + 1) = sessionAt session (fun j => envs (j + 1)) k := by
  cases k with
  | zero => exact congrArg Prod.snd (connect_inactive h (envs 1)).symm
  | succ k => rfl

/-- The environment makes `k` attempts that are retried and lets the next one
send the query, and `Q` holds of the bytes that are delivered then. -/
def Reaches (core : Core) (query : List UInt8) (session : Option (Session σ))
    (envs : Nat → Conditions σ) (k : Nat) (Q : List UInt8 → Prop) : Prop :=
  (∀ j < k, ∃ s, sessionAt session envs j = some s ∧ ¬ Takes query (envs j) s) ∧
    ∃ s, sessionAt session envs k = some s ∧ Takes query (envs k) s ∧
      Q (delivered core query (envs k) s)

/-- A later attempt is reached behind a first one that is retried. -/
theorem reaches_succ_iff (core : Core) {query : List UInt8} {start : Option (Session σ)}
    {envs : Nat → Conditions σ} {s s' : Session σ} (hs : sessionAt start envs 0 = some s)
    (htakes : ¬ Takes query (envs 0) s) (hinactive : Inactive (some s')) (k : Nat)
    (Q : List UInt8 → Prop) :
    Reaches core query start envs (k + 1) Q ↔
      Reaches core query (some s') (fun j => envs (j + 1)) k Q := by
  have hshift := sessionAt_succ hinactive envs start
  unfold Reaches
  rw [hshift]
  apply and_congr_left
  intro _
  constructor
  · intro h j hj
    rw [← hshift]
    exact h (j + 1) (by omega)
  · intro h j hj
    cases j with
    | zero => exact ⟨s, hs, htakes⟩
    | succ j =>
      rw [hshift]
      exact h j (by omega)

theorem not_reaches_of_none (core : Core) (query : List UInt8) {session : Option (Session σ)}
    {envs : Nat → Conditions σ} (h : sessionAt session envs 0 = none) (k : Nat)
    (Q : List UInt8 → Prop) : ¬ Reaches core query session envs k Q := by
  intro hreaches
  cases k with
  | zero =>
    obtain ⟨s, hs, -⟩ := hreaches.2
    simp [h] at hs
  | succ k =>
    obtain ⟨s, hs, -⟩ := hreaches.1 0 (Nat.succ_pos k)
    simp [h] at hs

/-- An attempt that sends the query is the last one. -/
theorem exists_reaches_of_takes (core : Core) {query : List UInt8} {session : Option (Session σ)}
    {envs : Nat → Conditions σ} {s : Session σ} (hs : sessionAt session envs 0 = some s)
    (htakes : Takes query (envs 0) s) (left : Nat) (Q : List UInt8 → Prop) :
    (∃ k < left + 1, Reaches core query session envs k Q) ↔
      Q (delivered core query (envs 0) s) := by
  constructor
  · rintro ⟨k, -, hbefore, s', hs', -, hQ⟩
    cases k with
    | zero =>
      rw [hs] at hs'
      rwa [← Option.some.inj hs'] at hQ
    | succ k =>
      obtain ⟨s'', hs'', hnot⟩ := hbefore 0 (Nat.succ_pos k)
      rw [hs] at hs''
      rw [← Option.some.inj hs''] at hnot
      exact absurd htakes hnot
  · intro hQ
    exact ⟨0, Nat.succ_pos left, by simp, s, hs, htakes, hQ⟩

/-- Behind a first attempt that is retried the attempts are those of its
session. -/
theorem exists_reaches_of_retried (core : Core) {query : List UInt8}
    {session : Option (Session σ)} {envs : Nat → Conditions σ} {s s' : Session σ}
    (hs : sessionAt session envs 0 = some s) (htakes : ¬ Takes query (envs 0) s)
    (hinactive : Inactive (some s')) (left : Nat) (Q : List UInt8 → Prop) :
    (∃ k < left + 1, Reaches core query session envs k Q) ↔
      ∃ k < left, Reaches core query (some s') (fun j => envs (j + 1)) k Q := by
  constructor
  · rintro ⟨k, hk, hreaches⟩
    cases k with
    | zero =>
      obtain ⟨s'', hs'', htakes', -⟩ := hreaches.2
      rw [hs] at hs''
      rw [← Option.some.inj hs''] at htakes'
      exact absurd htakes' htakes
    | succ k =>
      exact ⟨k, by omega, (reaches_succ_iff core hs htakes hinactive k Q).mp hreaches⟩
  · rintro ⟨k, hk, hreaches⟩
    exact ⟨k + 1, by omega, (reaches_succ_iff core hs htakes hinactive k Q).mpr hreaches⟩

/-- The attempt that sends the query is made by the loop exactly when the
environment reaches it. -/
theorem exists_turn_iff (core : Core) {query : List UInt8} (hquery : query ≠ []) (left : Nat)
    (envs : Nat → Conditions σ) {session : Option (Session (Tap σ))} (hsound : Sound session)
    (result : InterfaceQueryResult) (Q : List UInt8 → Prop) {out : Outcome (Tap σ)}
    (hout : attemptLoop core query left (fun k => (envs k).tap) session result = out) :
    (∃ turn ∈ out.turns, turn.put = query ∧ Q turn.got) ↔
      ∃ k < left, Reaches core query session (fun k => (envs k).tap) k Q := by
  induction left generalizing envs session out with
  | zero =>
    rw [← hout]
    simp [attemptLoop]
  | succ left ih =>
    have hzero : sessionAt session (fun k => (envs k).tap) 0 =
        (connect session (envs 0).tap).2 := rfl
    have hturn := loopTurn_attemptLoop core hquery left envs hsound result
    rw [hout] at hturn
    cases hturn with
    | refused hconnect =>
      -- without a connection nothing is sent
      rw [hconnect] at hzero
      constructor
      · rintro ⟨turn, hmem, hput, -⟩
        rw [List.mem_singleton.mp hmem] at hput
        exact absurd hput.symm hquery
      · rintro ⟨k, -, hreaches⟩
        exact absurd hreaches (not_reaches_of_none core query hzero k Q)
    | ended s s' rc result' hconnect htakes hput hgot hreceives =>
      rw [hconnect] at hzero
      rw [exists_reaches_of_takes core hzero htakes, ← hgot]
      simp [hput]
    | retried s s' hconnect htakes hpart hne hinactive =>
      rw [hconnect] at hzero
      rw [exists_reaches_of_retried core hzero htakes hinactive,
        ← ih (fun k => envs (k + 1)) (sound_inactive (hinactive s' rfl)) rfl]
      simp [Outcome.behind, hne]

/-! ## A request -/

/-- The attempt sent the whole query and then read a header and the payload
that it announces. -/
def Turn.Complete (core : Core) (query : List UInt8) (turn : Turn (Tap σ)) : Prop :=
  turn.put = query ∧ ∃ header payload, IsReply core header payload turn.got

/-- What holds of every request.  The result of a successful one has zeros in
the place of the header. -/
structure AtMostOnce (core : Core) (query : List UInt8) (out : Outcome (Tap σ)) : Prop where
  attempts : out.turns.length ≤ 9
  part : ∀ turn ∈ out.turns, turn.put <+: query
  once : (out.turns.filter (fun turn => turn.put = query)).length ≤ 1
  fresh : ∀ turn ∈ out.turns.tail, sentOn turn.before = []
  returned : out.returned = true ↔ ∃ turn ∈ out.turns, turn.rc = some 1
  answered : ∀ turn ∈ out.turns, turn.rc = some 1 → turn.put = query ∧
    ∃ header payload, IsReply core header payload turn.got ∧
      out.result = { replyData := List.replicate 8 0 ++ payload, valid := true }
  answers : ∀ turn ∈ out.turns, turn.put = query → ∀ header payload,
    IsReply core header payload turn.got → payload ≠ [] → turn.rc = some 1
  valid : out.result.valid = out.returned

/-- What is promised of a request: at most one delivery, success exactly with a
complete reply, and then the bytes that were read in the result. -/
structure DeliveredOnce (core : Core) (query : List UInt8) (out : Outcome (Tap σ)) : Prop where
  attempts : out.turns.length ≤ 9
  once : (out.turns.filter (fun turn => turn.put = query)).length ≤ 1
  answer : ∀ turn ∈ out.turns, turn.rc = some 1 ↔ turn.Complete core query
  returned : out.returned = true ↔ ∃ turn ∈ out.turns, turn.Complete core query
  result : ∀ turn ∈ out.turns, turn.Complete core query →
    out.result = { replyData := turn.got, valid := true }
  invalid : (¬ ∃ turn ∈ out.turns, turn.Complete core query) → out.result.valid = false

/-- The bytes are a complete reply whose header is not all zero. -/
def IsProperReply (core : Core) (bs : List UInt8) : Prop :=
  ∃ header payload, IsReply core header payload bs ∧ header.bytes ≠ List.replicate 8 0

theorem atMostOnce (core : Core) (client : Client (Tap σ)) (query : QueryData)
    (envs : Nat → Conditions σ) :
    AtMostOnce core query.bytes
      (processQueryRequest core client query (fun k => (envs k).tap)) := by
  have hhistory := history_attemptLoop core query.bytes_ne (maxSendRetries + 1) envs
    client.sound rfl
  exact {
    attempts := length_turns_le core query.bytes_ne (maxSendRetries + 1) envs client.sound
      emptyResult rfl
    part := hhistory.put_part
    once := hhistory.put_once
    fresh := sentOn_before_retry core query.bytes_ne maxSendRetries envs client.sound
      emptyResult rfl
    returned := hhistory.returned_iff
    answered := hhistory.of_rc
    answers := hhistory.rc_of_reply
    valid := hhistory.valid_eq }

/-- A header of zeros announces a payload: what `size` answers for it is either
too small or large. -/
theorem payload_ne_nil_of_zeros {core : Core} {header : RequestResponseHeader}
    {payload bs : List UInt8} (hzeros : header.bytes = List.replicate 8 0)
    (hreply : IsReply core header payload bs) : payload ≠ [] := by
  have hfield : header.sizeField = 0 := by
    rw [RequestResponseHeader.sizeField, hzeros]
    decide
  have hsize : header.size core = core.zeroSize := if_pos hfield
  have hinvalid := core.zeroSize_invalid
  intro hnil
  have hlen := hreply.2
  rw [hnil, List.length_nil, hsize] at hlen
  omega

omit [Socket σ] in
/-- The promise is kept exactly when no attempt that sends the query reads a
complete reply with a proper header. -/
theorem AtMostOnce.deliveredOnce_iff {core : Core} {query : List UInt8}
    {out : Outcome (Tap σ)} (h : AtMostOnce core query out) :
    DeliveredOnce core query out ↔
      ¬ ∃ turn ∈ out.turns, turn.put = query ∧ IsProperReply core turn.got := by
  constructor
  · intro hpromise ⟨turn, hturn, hput, header, payload, hreply, hproper⟩
    have hcomplete : turn.Complete core query := ⟨hput, header, payload, hreply⟩
    obtain ⟨-, header', payload', hreply', hresult⟩ :=
      h.answered turn hturn ((hpromise.answer turn hturn).mpr hcomplete)
    -- the result holds the bytes that were read, and zeros where the header was
    have hgot : turn.got = List.replicate 8 0 ++ payload' := by
      have hbytes := hresult.symm.trans (hpromise.result turn hturn hcomplete)
      exact (congrArg InterfaceQueryResult.replyData hbytes).symm
    apply hproper
    have happend := hreply.1.symm.trans hgot
    exact (List.append_inj happend (by rw [header.length_bytes, List.length_replicate])).1
  · intro hnone
    have hzeros : ∀ turn ∈ out.turns, turn.put = query → ∀ header payload,
        IsReply core header payload turn.got → header.bytes = List.replicate 8 0 := by
      intro turn hturn hput header payload hreply
      by_contra hproper
      exact hnone ⟨turn, hturn, hput, header, payload, hreply, hproper⟩
    have hanswer : ∀ turn ∈ out.turns, turn.rc = some 1 ↔ turn.Complete core query := by
      intro turn hturn
      constructor
      · intro hrc
        obtain ⟨hput, header, payload, hreply, -⟩ := h.answered turn hturn hrc
        exact ⟨hput, header, payload, hreply⟩
      · rintro ⟨hput, header, payload, hreply⟩
        exact h.answers turn hturn hput header payload hreply
          (payload_ne_nil_of_zeros (hzeros turn hturn hput header payload hreply) hreply)
    have hreturned : out.returned = true ↔ ∃ turn ∈ out.turns, turn.Complete core query := by
      rw [h.returned]
      constructor
      · rintro ⟨turn, hturn, hrc⟩
        exact ⟨turn, hturn, (hanswer turn hturn).mp hrc⟩
      · rintro ⟨turn, hturn, hcomplete⟩
        exact ⟨turn, hturn, (hanswer turn hturn).mpr hcomplete⟩
    refine ⟨h.attempts, h.once, hanswer, hreturned, ?_, ?_⟩
    · intro turn hturn hcomplete
      obtain ⟨hput, header, payload, hreply, hresult⟩ :=
        h.answered turn hturn ((hanswer turn hturn).mpr hcomplete)
      rw [hresult, hreply.1, hzeros turn hturn hput header payload hreply]
    · intro hincomplete
      rw [h.valid, ← Bool.not_eq_true, hreturned]
      exact hincomplete

/-- For every client, request and environment of its attempts: the query is
delivered at most once, and the rest of the promise is kept exactly when the
environment reaches no attempt in which the connection takes the query and a
complete reply with a proper header is delivered. -/
theorem delivered_once_iff (core : Core) (client : Client (Tap σ)) (query : QueryData)
    (envs : Nat → Conditions σ) :
    AtMostOnce core query.bytes
        (processQueryRequest core client query (fun k => (envs k).tap)) ∧
      (DeliveredOnce core query.bytes
          (processQueryRequest core client query (fun k => (envs k).tap)) ↔
        ∀ k ≤ maxSendRetries, ¬ Reaches core query.bytes client.session
          (fun k => (envs k).tap) k (IsProperReply core)) := by
  have honce := atMostOnce core client query envs
  have hturn := exists_turn_iff core query.bytes_ne (maxSendRetries + 1) envs client.sound
    emptyResult (IsProperReply core) rfl
  refine ⟨honce, honce.deliveredOnce_iff.trans ((not_congr hturn).trans ?_)⟩
  constructor
  · intro h k hk hreaches
    exact h ⟨k, Nat.lt_succ_of_le hk, hreaches⟩
  · intro h ⟨k, hk, hreaches⟩
    exact h k (Nat.le_of_lt_succ hk) hreaches

/-- Nothing happens meanwhile. -/
def Meanwhile.nothing : Meanwhile σ := { sock := id, shutdown := false }

/-- A connection on which a reply with the payload `7` arrives. -/
def replyArrives : Conditions Peer where
  connected := some
    { inbound := [.data 9 [0, 0, 191, 0, 0, 0, 0], .data 7 []], sends := [], written := [] }
  setTimeout := true
  beforeCheck := .nothing
  beforeSend := .nothing
  beforeHeader := .nothing
  beforePayload := .nothing
  afterReply := .nothing

/-- A query that is a header only. -/
def QueryData.sample : QueryData where
  bytes := [8, 0, 0, 190, 0, 0, 0, 0]
  bytes_ne := by decide
  length_lt := by decide

/-- A client that has not connected yet. -/
def Client.init : Client σ := { session := none, sound := sound_none }

/-- The outcome of a request whose reply arrives in the first attempt. -/
def answeredRequest : Outcome (Tap Peer) :=
  processQueryRequest Core.sample Client.init QueryData.sample (fun _ => replyArrives.tap)

/-- The request succeeds, and the nine bytes of the reply were read. -/
theorem answeredRequest_turns :
    answeredRequest.returned = true ∧
      answeredRequest.turns.map (fun turn => (turn.rc, turn.put, turn.got)) =
        [(some 1, QueryData.sample.bytes, [9, 0, 0, 191, 0, 0, 0, 0, 7])] ∧
      answeredRequest.result = { replyData := [0, 0, 0, 0, 0, 0, 0, 0, 7], valid := true } := by
  decide +kernel

/-- Where the header was, the result has zeros, so that it does not hold the
bytes that were read. -/
theorem header_is_left_out :
    ¬ DeliveredOnce Core.sample QueryData.sample.bytes answeredRequest := by
  intro hpromise
  obtain ⟨hreturned, hturns, hresult⟩ := answeredRequest_turns
  obtain ⟨turn, hturn, hcomplete⟩ := hpromise.returned.mp hreturned
  have hread := hpromise.result turn hturn hcomplete
  have hmem := List.mem_map_of_mem (f := fun turn => (turn.rc, turn.put, turn.got)) hturn
  rw [hturns, List.mem_singleton, Prod.mk.injEq, Prod.mk.injEq] at hmem
  rw [hresult, hmem.2.2] at hread
  exact absurd hread (by decide)

end OracleMachine.Node.Retries
