import OracleMachine.Lib.Entries
import OracleMachine.Price.Providers

/-!
# The price cache is transparent

A price from the cache of an exchange provider is a price that the exchange has
sent, for the request that the call would have made, a short time ago.  This is
about the past of a run: `Received` says that the labels of a run have the
response of a request, and `Recorded` that they have the step that put an entry
into a cache.

`Turn` says once what a step of a call can do.  Only `update` changes a cache,
and a call gets to `update` only by a response that was parsed and converted.
`History` follows from that by induction over the run, and
`cache_is_transparent` from `History` and the invariant of the providers.
-/

namespace OracleMachine.Price.Providers

open Lib.Decimal Lib.Text Lib.TimedMap Lib.Transition

/-- The URL that is fetched for a job. -/
def urlOf (exchange : Nat → Exchange) (job : Job) : Text :=
  (exchange job.provider).buildKlineUrl job.symbol job.candle.openMs job.candle.closeMs 1

section Past

variable (exchange : Nat → Exchange) (stod : Text → Option Int64)
variable (steady : Clock) (system : SystemClock)

/-- In the run with these labels, call `i` has got the response of a fetch for
its job. -/
def Received (labels : List Label) (i : Nat) (job : Job) (origin : Fetch) : Prop :=
  ∃ earlier later s call, labels = earlier ++ .fetch i (some origin.response) :: later ∧
    Runs (step exchange stod steady system) anyStep (init steady) earlier s ∧
    s.calls[i]? = some call ∧ call.phase = .fetching job ∧
    origin.url = urlOf exchange job ∧
    (exchange job.provider).parseKlineResponse origin.response = .ok origin.closePriceString

/-- In the run with these labels, a call has put the entry into the cache of
provider `p`, with the price of a response that it had got before. -/
def Recorded (labels : List Label) (p : Nat) (entry : CacheEntry) : Prop :=
  ∃ earlier later s i call job, labels = earlier ++ .update i :: later ∧
    Runs (step exchange stod steady system) anyStep (init steady) earlier s ∧
    s.calls[i]? = some call ∧ call.phase = .caching job entry.price entry.origin ∧
    job.provider = p ∧ entry.fetchTime = steady.read s.steadyReadings ∧
    Received exchange stod steady system earlier i job entry.origin

/-- The request of a job gives no price: it fails, its response is no kline, or
the close price is no number. -/
def FetchFailed (job : Job) (response : Option Text) : Prop :=
  ∀ text, response = some text → ∀ closePriceString,
    (exchange job.provider).parseKlineResponse text = .ok closePriceString →
    priceStringToRational stod closePriceString = none

/-! ## What a step can do -/

/-- What one step does with a call and with the caches. -/
inductive Turn (s s' : State) (i : Nat) (call call' : Call) : Label → Prop where
  | quiet {label : Label} (hcache : ∀ p, (s'.providers p).cache = (s.providers p).cache)
      (hphase : ∀ job price origin, call'.phase ≠ .caching job price origin) :
      Turn s s' i call call' label
  | fetched (job : Job) (response : Option Text) (hphase : call.phase = .fetching job)
      (hcall' : call' = { call with phase := afterFetch exchange stod job response })
      (hproviders : s'.providers = s.providers) : Turn s s' i call call' (.fetch i response)
  | recorded (job : Job) (price : Rational) (origin : Fetch)
      (hphase : call.phase = .caching job price origin)
      (hcall' : call' = call.got { job, price, origin })
      (hcache : (s'.providers job.provider).cache = (s.providers job.provider).cache.insert
        (cacheKey job.symbol job.candle.closeMs)
        { price, candleTimestampMs := job.candle.closeMs,
          fetchTime := steady.read s.steadyReadings, origin })
      (hothers : ∀ p, p ≠ job.provider → (s'.providers p).cache = (s.providers p).cache) :
      Turn s s' i call call' (.update i)

end Past

variable {exchange : Nat → Exchange} {stod : Text → Option Int64}
variable {steady : Clock} {system : SystemClock}

/-- A quote does not lead to `update`. -/
theorem got_ne_caching (call : Call) (quote : Quote) (job : Job) (price : Rational)
    (origin : Fetch) : (call.got quote).phase ≠ .caching job price origin := by
  intro h
  unfold Call.got at h
  dsimp only at h
  split at h <;> cases h

/-- A provider that has kept a field leaves it as it is at all providers. -/
theorem field_update {β : Type} (field : Provider → β) {providers : Nat → Provider} {p : Nat}
    {provider : Provider} (h : field provider = field (providers p)) (q : Nat) :
    field (Function.update providers p provider q) = field (providers q) := by
  by_cases hq : q = p
  · subst hq
    rw [Function.update_self, h]
  · rw [Function.update_of_ne hq]

/-- A step adds a call or lets time pass, or it is a turn of one call, which has
not failed. -/
theorem step_cases {s s' : State} {label : Label}
    (hstep : step exchange stod steady system s label = some s') :
    s.steadyReadings ≤ s'.steadyReadings ∧
    ((s'.providers = s.providers ∧ ∃ new, s'.calls = s.calls ++ new ∧
        ∀ call ∈ new, call.phase = .ready) ∨
      ∃ i call call', s.calls[i]? = some call ∧ s'.calls = s.calls.set i call' ∧
        (∀ error, call.phase ≠ .failed error) ∧
        Turn exchange stod steady s s' i call call' label) := by
  cases move_of_step hstep with
  | request query =>
    refine ⟨Nat.le_refl _, .inl ⟨rfl, _, rfl, ?_⟩⟩
    intro call hcall
    rw [List.mem_singleton.mp hcall]
  | ask hcall hphase =>
    refine ⟨Nat.le_refl _, .inr ⟨_, _, _, hcall, rfl, ?_, .quiet (fun _ => rfl) ?_⟩⟩
    · simp [hphase]
    · simp
  | @hit i call job entry hcall hphase =>
    refine ⟨Nat.le_succ _, .inr ⟨i, call, _, hcall, rfl, ?_,
      .quiet (fun _ => rfl) (got_ne_caching call _)⟩⟩
    simp [hphase]
  | stale hcall hphase =>
    refine ⟨Nat.le_succ _, .inr ⟨_, _, _, hcall, rfl, ?_, .quiet (fun _ => rfl) ?_⟩⟩
    · simp [hphase]
    · simp
  | miss hcall hphase =>
    refine ⟨Nat.le_refl _, .inr ⟨_, _, _, hcall, rfl, ?_, .quiet (fun _ => rfl) ?_⟩⟩
    · simp [hphase]
    · simp
  | limit hcall hphase =>
    refine ⟨Nat.le_succ _, .inr ⟨_, _, _, hcall, rfl, ?_,
      .quiet (field_update Provider.cache rfl) ?_⟩⟩
    · simp [hphase]
    · simp
  | release hcall hphase =>
    refine ⟨Nat.le_succ _, .inr ⟨_, _, _, hcall, rfl, ?_,
      .quiet (field_update Provider.cache rfl) ?_⟩⟩
    · simp [hphase]
    · simp
  | @fetch i call job response hcall hphase =>
    refine ⟨Nat.le_refl _,
      .inr ⟨i, call, _, hcall, rfl, ?_, .fetched job response hphase rfl rfl⟩⟩
    simp [hphase]
  | @update i call job price origin hcall hphase =>
    refine ⟨Nat.le_succ _,
      .inr ⟨i, call, _, hcall, rfl, ?_, .recorded job price origin hphase rfl ?_ ?_⟩⟩
    · simp [hphase]
    · simp [State.setProvider]
    · intro p hp
      simp [State.setProvider, State.setCall, Function.update_of_ne hp]
  | tick =>
    exact ⟨Nat.le_succ _,
      .inl ⟨rfl, [], (List.append_nil _).symm, fun _ hcall => absurd hcall List.not_mem_nil⟩⟩

/-- A request leads to `update` only by a response that was parsed. -/
theorem afterFetch_eq_caching {job job' : Job} {response : Option Text} {price : Rational}
    {origin : Fetch} (h : afterFetch exchange stod job response = .caching job' price origin) :
    job' = job ∧ response = some origin.response ∧ origin.url = urlOf exchange job ∧
      (exchange job.provider).parseKlineResponse origin.response = .ok origin.closePriceString := by
  cases response with
  | none => cases h
  | some text =>
    rw [afterFetch] at h
    cases hparse : (exchange job.provider).parseKlineResponse text with
    | error error => simp [hparse] at h
    | ok closePriceString =>
      cases hprice : priceStringToRational stod closePriceString with
      | none => simp [hparse, hprice] at h
      | some converted =>
        simp only [hparse, hprice, Phase.caching.injEq] at h
        obtain ⟨rfl, -, rfl⟩ := h
        exact ⟨rfl, rfl, rfl, hparse⟩

/-- A request without a price makes the call fail. -/
theorem afterFetch_of_failed {job : Job} {response : Option Text}
    (h : FetchFailed exchange stod job response) :
    ∃ error, afterFetch exchange stod job response = .failed error := by
  cases response with
  | none => exact ⟨_, rfl⟩
  | some text =>
    rw [afterFetch]
    cases hparse : (exchange job.provider).parseKlineResponse text with
    | error error => exact ⟨error, rfl⟩
    | ok closePriceString =>
      have hprice := h text rfl closePriceString hparse
      exact ⟨.oracleUnavail, by simp only [hprice]⟩

/-! ## The past of a run -/

theorem Received.append {labels : List Label} {i : Nat} {job : Job} {origin : Fetch}
    (h : Received exchange stod steady system labels i job origin) (label : Label) :
    Received exchange stod steady system (labels ++ [label]) i job origin := by
  obtain ⟨earlier, later, s, call, hlabels, hrest⟩ := h
  refine ⟨earlier, later ++ [label], s, call, ?_, hrest⟩
  rw [hlabels, List.append_assoc, List.cons_append]

theorem Recorded.append {labels : List Label} {p : Nat} {entry : CacheEntry}
    (h : Recorded exchange stod steady system labels p entry) (label : Label) :
    Recorded exchange stod steady system (labels ++ [label]) p entry := by
  obtain ⟨earlier, later, s, i, call, job, hlabels, hrest⟩ := h
  refine ⟨earlier, later ++ [label], s, i, call, job, ?_, hrest⟩
  rw [hlabels, List.append_assoc, List.cons_append]

variable (exchange stod steady system) in
/-- What the past of a run says about its state. -/
structure History (labels : List Label) (s : State) : Prop where
  run : Runs (step exchange stod steady system) anyStep (init steady) labels s
  caching : ∀ i call job price origin, s.calls[i]? = some call →
    call.phase = .caching job price origin → Received exchange stod steady system labels i job origin
  cache : ∀ p key entry, ⟨key, entry⟩ ∈ (s.providers p).cache.entries →
    Recorded exchange stod steady system labels p entry ∧
      entry.fetchTime ≤ steady.read s.steadyReadings

theorem history_init : History exchange stod steady system [] (init steady) where
  run := .nil _
  caching := fun _ _ _ _ _ hcall => absurd (List.mem_of_getElem? hcall) List.not_mem_nil
  cache := fun _ _ _ hmem => absurd hmem List.not_mem_nil

/-- A call that is about to update has got a response before. -/
theorem History.caching_step {labels : List Label} {s s' : State} {label : Label}
    (h : History exchange stod steady system labels s)
    (hstep : step exchange stod steady system s label = some s') {i : Nat} {call : Call} {job : Job}
    {price : Rational} {origin : Fetch} (hcall : s'.calls[i]? = some call)
    (hphase : call.phase = .caching job price origin) :
    Received exchange stod steady system (labels ++ [label]) i job origin := by
  have hold : s.calls[i]? = some call →
      Received exchange stod steady system (labels ++ [label]) i job origin :=
    fun hmem => (h.caching i call job price origin hmem hphase).append label
  rcases (step_cases hstep).2 with ⟨-, new, hcalls, hready⟩ | ⟨j, old, moved, hmem, hcalls, -, hturn⟩
  · rw [hcalls, List.getElem?_append] at hcall
    split at hcall
    · exact hold hcall
    · rw [hready call (List.mem_of_getElem? hcall)] at hphase
      cases hphase
  · rw [hcalls] at hcall
    rcases Lib.Entries.getElem?_set_cases hcall with ⟨rfl, rfl⟩ | ⟨-, hcall⟩
    · cases hturn with
      | quiet _ hnot => exact absurd hphase (hnot job price origin)
      | fetched asked response hasked hmoved _ =>
        -- this step is the response
        rw [hmoved] at hphase
        obtain ⟨rfl, hresponse, hurl, hparse⟩ := afterFetch_eq_caching hphase
        subst hresponse
        exact ⟨labels, [], s, old, rfl, h.run, hmem, hasked, hurl, hparse⟩
      | recorded asked price' origin' _ hmoved _ _ =>
        rw [hmoved] at hphase
        exact absurd hphase (got_ne_caching _ _ _ _ _)
    · exact hold hcall

/-- A new entry in a cache is recorded by this step. -/
theorem History.cache_step {labels : List Label} {s s' : State} {label : Label}
    (h : History exchange stod steady system labels s)
    (hstep : step exchange stod steady system s label = some s') {p : Nat} {key : Text}
    {entry : CacheEntry} (hmem : ⟨key, entry⟩ ∈ (s'.providers p).cache.entries) :
    Recorded exchange stod steady system (labels ++ [label]) p entry ∧
      entry.fetchTime ≤ steady.read s'.steadyReadings := by
  obtain ⟨hreadings, hcases⟩ := step_cases hstep
  have hread : steady.read s.steadyReadings ≤ steady.read s'.steadyReadings :=
    steady.mono hreadings
  have hold : ⟨key, entry⟩ ∈ (s.providers p).cache.entries →
      Recorded exchange stod steady system (labels ++ [label]) p entry ∧
        entry.fetchTime ≤ steady.read s'.steadyReadings := by
    intro hmem
    obtain ⟨hrecorded, hle⟩ := h.cache p key entry hmem
    exact ⟨hrecorded.append label, hle.trans hread⟩
  rcases hcases with ⟨hproviders, -⟩ | ⟨i, call, call', hcall, -, -, hturn⟩
  · rw [hproviders] at hmem
    exact hold hmem
  · cases hturn with
    | quiet hcache _ =>
      rw [hcache] at hmem
      exact hold hmem
    | fetched _ _ _ _ hproviders =>
      rw [hproviders] at hmem
      exact hold hmem
    | recorded job price origin hphase _ hcache hothers =>
      by_cases hp : p = job.provider
      · subst hp
        rw [hcache] at hmem
        rcases mem_insert hmem with heq | hmem
        · obtain ⟨-, hval⟩ := Sigma.mk.inj heq
          obtain rfl := eq_of_heq hval
          exact ⟨⟨labels, [], s, i, call, job, rfl, h.run, hcall, hphase, rfl, rfl,
            h.caching i call job price origin hcall hphase⟩, hread⟩
        · exact hold hmem
      · rw [hothers p hp] at hmem
        exact hold hmem

theorem history_step {labels : List Label} {s s' : State} {label : Label}
    (h : History exchange stod steady system labels s)
    (hstep : step exchange stod steady system s label = some s') :
    History exchange stod steady system (labels ++ [label]) s' where
  run := Runs.append_iff.mpr ⟨s, h.run, .cons trivial hstep (.nil s')⟩
  caching := fun _ _ _ _ _ hcall hphase => h.caching_step hstep hcall hphase
  cache := fun _ _ _ hmem => h.cache_step hstep hmem

theorem history_run {labels : List Label} {s : State}
    (hrun : Runs (step exchange stod steady system) anyStep (init steady) labels s) :
    History exchange stod steady system labels s :=
  hrun.history (fun _ _ _ _ h _ hstep => history_step h hstep) history_init

/-! ## Calls that failed -/

/-- A call that has failed stays as it is. -/
theorem failed_step {s s' : State} {label : Label} {i : Nat} {call : Call} {error : OracleError}
    (hcall : s.calls[i]? = some call) (hfailed : call.phase = .failed error)
    (hstep : step exchange stod steady system s label = some s') : s'.calls[i]? = some call := by
  rcases (step_cases hstep).2 with ⟨-, new, hcalls, -⟩ | ⟨j, old, moved, hold, hcalls, hne, -⟩
  · rw [hcalls, List.getElem?_append_left (List.getElem?_eq_some_iff.mp hcall).1]
    exact hcall
  · have hij : j ≠ i := by
      intro heq
      rw [heq, hcall] at hold
      exact hne error (Option.some.inj hold ▸ hfailed)
    rw [hcalls, List.getElem?_set_ne hij]
    exact hcall

theorem failed_run {s t : State} {labels : List Label} {i : Nat} {call : Call} {error : OracleError}
    (hcall : s.calls[i]? = some call) (hfailed : call.phase = .failed error)
    (hrun : Runs (step exchange stod steady system) anyStep s labels t) :
    t.calls[i]? = some call :=
  Runs.invariant (I := fun t => t.calls[i]? = some call)
    (fun _ _ _ hcall _ hstep => failed_step hcall hfailed hstep) hrun hcall

/-! ## Transparency -/

variable (exchange stod steady system) in
/-- The entry of a cache is an answer to the request of a job: the price of a
response to the URL of the job, recorded less than the time to live ago. -/
structure Answers (labels : List Label) (s : State) (job : Job) (entry : CacheEntry) : Prop where
  recorded : Recorded exchange stod steady system labels job.provider entry
  url_eq : entry.origin.url = urlOf exchange job
  parsed : (exchange job.provider).parseKlineResponse entry.origin.response =
    .ok entry.origin.closePriceString
  converted : priceStringToRational stod entry.origin.closePriceString = some entry.price
  fetched : entry.fetchTime ≤ steady.read s.steadyReadings
  fresh : (steady.read s.steadyReadings : Int) <
    entry.fetchTime + (exchange job.provider).cacheTtl * 10 ^ 9

/-- An entry under the key of a job answers the job. -/
theorem answers_of_lookup {labels : List Label} {s : State} {call : Call} {job : Job}
    {entry : CacheEntry}
    (hrun : Runs (step exchange stod steady system) anyStep (init steady) labels s)
    (hcall : call ∈ s.calls) (hphase : call.phase = .checking job)
    (hentry : (s.providers job.provider).cache.lookup (cacheKey job.symbol job.candle.closeMs) =
      some entry)
    (hfresh : (((steady.read s.steadyReadings - entry.fetchTime) / 10 ^ 9 : Nat) : Int) <
      (exchange job.provider).cacheTtl) :
    Answers exchange stod steady system labels s job entry := by
  have hmem := AList.mem_lookup_iff.mp hentry
  obtain ⟨hrecorded, hle⟩ := (history_run hrun).cache _ _ entry hmem
  have hinv := inv_run hrun
  obtain ⟨hkey, -, hfetch, hprice⟩ := hinv.cache _ _ entry hmem
  -- the key gives the symbol and the close time, and the candle lasts a minute
  obtain ⟨hsymbol, hclose⟩ := cacheKey_inj hkey
  have hjob := (hinv.calls call hcall).phase
  rw [PhaseOk, hphase] at hjob
  have hopen : entry.origin.candle.openMs = job.candle.openMs := by
    rw [hfetch.oneMinute, hjob.2.2.oneMinute, hclose]
  refine ⟨hrecorded, ?_, hfetch.parsed, hprice, hle, ?_⟩
  · rw [hfetch.url_eq, urlOf, hsymbol, hclose, hopen]
  · omega

/-- The price cache is transparent.  In every run, a call that looks into the
cache goes on to fetch its price, or it gets an entry that answers its job.  A
request that gives no price leaves all providers as they are, and its call stays
failed for ever.  A cache is changed only by a call that has got a response and
puts the price of it under the key of its job. -/
theorem cache_is_transparent {labels : List Label} {s : State}
    (hrun : Runs (step exchange stod steady system) anyStep (init steady) labels s) :
    (∀ i call job s', s.calls[i]? = some call → call.phase = .checking job →
      step exchange stod steady system s (.check i) = some s' →
      s'.calls[i]? = some { call with phase := .limiting job } ∨
      ∃ entry, s'.calls[i]? = some (call.got { job, price := entry.price, origin := entry.origin }) ∧
        Answers exchange stod steady system labels s job entry) ∧
    (∀ i call job response s', s.calls[i]? = some call → call.phase = .fetching job →
      FetchFailed exchange stod job response →
      step exchange stod steady system s (.fetch i response) = some s' →
      s'.providers = s.providers ∧
      ∃ call' error, call'.phase = .failed error ∧
        ∀ labels' t, Runs (step exchange stod steady system) anyStep s' labels' t →
          t.calls[i]? = some call') ∧
    (∀ label s' p, step exchange stod steady system s label = some s' →
      (s'.providers p).cache = (s.providers p).cache ∨
      ∃ i call job price origin, label = .update i ∧ s.calls[i]? = some call ∧
        call.phase = .caching job price origin ∧ job.provider = p ∧
        Received exchange stod steady system labels i job origin ∧
        (s'.providers p).cache = (s.providers p).cache.insert
          (cacheKey job.symbol job.candle.closeMs)
          { price, candleTimestampMs := job.candle.closeMs,
            fetchTime := steady.read s.steadyReadings, origin }) := by
  refine ⟨?_, ?_, ?_⟩
  · intro i call job s' hcall hphase hstep
    have hlt := (List.getElem?_eq_some_iff.mp hcall).1
    rw [step, hcall, Option.bind_some, checkStep, hphase] at hstep
    dsimp only at hstep
    split at hstep
    · next entry hentry =>
      obtain rfl := Option.some.inj hstep
      simp only [State.setCall, List.getElem?_set_self hlt]
      split
      · next hfresh =>
        exact .inr ⟨entry, rfl, answers_of_lookup hrun (List.mem_of_getElem? hcall) hphase hentry
          hfresh⟩
      · exact .inl rfl
    · obtain rfl := Option.some.inj hstep
      exact .inl (List.getElem?_set_self hlt)
  · intro i call job response s' hcall hphase hfailed hstep
    have hlt := (List.getElem?_eq_some_iff.mp hcall).1
    rw [step, hcall, Option.bind_some, fetchStep, hphase] at hstep
    obtain ⟨error, herror⟩ := afterFetch_of_failed hfailed
    obtain rfl := Option.some.inj hstep
    refine ⟨rfl, { call with phase := afterFetch exchange stod job response }, error, herror, ?_⟩
    intro labels' t hlater
    exact failed_run (List.getElem?_set_self hlt) herror hlater
  · intro label s' p hstep
    rcases (step_cases hstep).2 with ⟨hproviders, -⟩ | ⟨i, call, call', hcall, -, -, hturn⟩
    · exact .inl (by rw [hproviders])
    · cases hturn with
      | quiet hcache _ => exact .inl (hcache p)
      | fetched _ _ _ _ hproviders => exact .inl (by rw [hproviders])
      | recorded job price origin hphase _ hcache hothers =>
        by_cases hp : p = job.provider
        · subst hp
          exact .inr ⟨i, call, job, price, origin, rfl, hcall, hphase, rfl,
            (history_run hrun).caching i call job price origin hcall hphase, hcache⟩
        · exact .inl (hothers p hp)

/-- Two queries for one candle, one after the other.  The second one is about to
look into the cache. -/
def repeatedLabels : List Label :=
  .request (firstCandleQuery 0) :: fetchLabels 0 "[[0,\"1\",\"1\",\"1\",\"5\"]]" ++
    [.request (firstCandleQuery 0), .ask 1]

/-- The second query gets the price `5` from the cache. -/
theorem cache_is_transparent_repeated :
    ∃ (s s' : State) (job : Job) (entry : CacheEntry),
      Runs (step twoExchanges (fun _ => none) steadySeconds minuteBoundary) anyStep
        (init steadySeconds) repeatedLabels s ∧
      step twoExchanges (fun _ => none) steadySeconds minuteBoundary s (.check 1) = some s' ∧
      s'.calls[1]?.map Call.phase = some (.returned ⟨5, 1⟩) ∧
      Answers twoExchanges (fun _ => none) steadySeconds minuteBoundary repeatedLabels s job
        entry := by
  have hexec : (exec (step twoExchanges (fun _ => none) steadySeconds minuteBoundary)
      (init steadySeconds) repeatedLabels).bind (fun s =>
        (step twoExchanges (fun _ => none) steadySeconds minuteBoundary s (.check 1)).map fun s' =>
          (s.calls[1]?.map Call.phase, s'.calls[1]?.map Call.phase)) =
      some (some (.checking ⟨0, ascii "BTCUSDT", ⟨0, 60000⟩, none⟩), some (.returned ⟨5, 1⟩)) := by
    decide
  obtain ⟨s, hs, hnext⟩ := Option.bind_eq_some_iff.mp hexec
  obtain ⟨s', hstep, hview⟩ := Option.map_eq_some_iff.mp hnext
  obtain ⟨hbefore, hafter⟩ := Prod.mk.inj hview
  obtain ⟨call, hcall, hphase⟩ := Option.map_eq_some_iff.mp hbefore
  have hrun := runs_of_exec (G := anyStep) (fun _ _ _ => trivial) hs
  rcases (cache_is_transparent hrun).1 1 call _ s' hcall hphase hstep with hmiss | ⟨entry, -, hhit⟩
  · rw [hmiss] at hafter
    cases hafter
  · exact ⟨s, s', _, entry, hrun, hstep, hafter, hhit⟩

end OracleMachine.Price.Providers
