import OracleMachine.Lib.TimedMap
import OracleMachine.Lib.Transition
import OracleMachine.Price.Exchange
import OracleMachine.Price.Rational

/-!
# Price queries over shared providers

A price query asks one exchange provider, or two of them one after the other
and takes the mean.  A provider has a cache and a rate limiter, each behind its
own mutex, and any number of session threads use it at the same time.  This
module is the step machine of any number of `getPrice` and
`getPriceAtTimestamp` calls:

* `ask i`: call `i` turns to its next provider and settles on a candle.  A zero
  time stamp makes the provider read the wall clock;
* `check i`: call `i` looks into the cache of the provider;
* `limit i` and `release i`: call `i` takes the mutex of the rate limiter, and
  leaves it after its sleep;
* `fetch i response`: the HTTP request of call `i` ends.  The response is parsed
  and converted;
* `update i`: call `i` puts the price into the cache;
* `tick`: time passes.

`CombinedPriceProvider` is the loop over two providers, and an oracle with a
single source is the same loop over one.  The responses of the exchanges are the
environment's choice.

`Move` says once what a step can do, one case for each branch of the code.

A quote is a price that a provider has returned, together with the candle it was
asked for and the response it was read from.  `Inv` says that quotes and cache
entries are what their responses say.  The two results are
`mean_of_one_candle_iff`, about the candles of the two quotes of a mean, and
`price_exact_iff`, about the value of a price.
-/

namespace OracleMachine.Price.Providers

open Lib.Decimal Lib.Text Lib.TimedMap Lib.Transition

/-- The readings of the wall clock, in milliseconds.  The clock may be set back. -/
structure SystemClock where
  read : Nat → Int
  hasRoom : ∀ k, HasRoom 120000 (read k)

/-- A successful request for a candle: the symbol, the candle, the URL, the
response, and the close price that was found in it. -/
structure Fetch where
  symbol : Text
  candle : Candle
  url : Text
  response : Text
  closePriceString : Text
  deriving DecidableEq

/-- `ExchangePriceProvider::CacheEntry`, with the fetch it comes from. -/
structure CacheEntry where
  price : Rational
  candleTimestampMs : Int
  fetchTime : Nat
  origin : Fetch
  deriving DecidableEq

/-- The state of an `ExchangePriceProvider`: its cache, the time of its last
request, and who holds the mutex of the rate limiter. -/
structure Provider where
  cache : Map Text CacheEntry
  lastRequestTime : Int
  limiter : Option Nat

/-- The two ways to ask for a price. -/
inductive Method where
  | getPrice
  | getPriceAtTimestamp (timestampMs : Int)
  deriving DecidableEq

/-- The time stamp of a query has room for its candle. -/
def Method.HasRoom : Method → Prop
  | .getPrice => True
  | .getPriceAtTimestamp timestampMs => Price.HasRoom 60000 timestampMs

instance : DecidablePred Method.HasRoom
  | .getPrice => inferInstanceAs (Decidable True)
  | .getPriceAtTimestamp _ => inferInstanceAs (Decidable (Price.HasRoom 60000 _))

/-- What a call wants from its current provider, and the reading of the wall
clock that decided about it, if one did. -/
structure Job where
  provider : Nat
  symbol : Text
  candle : Candle
  now : Option Int
  deriving DecidableEq

/-- A price that a provider has returned. -/
structure Quote where
  job : Job
  price : Rational
  origin : Fetch
  deriving DecidableEq

/-- Where a call is. -/
inductive Phase where
  | ready
  | checking (job : Job)
  | limiting (job : Job)
  | sleeping (job : Job) (wakeAt : Int)
  | fetching (job : Job)
  | caching (job : Job) (price : Rational) (origin : Fetch)
  | returned (price : Rational)
  | failed (error : OracleError)
  deriving DecidableEq

/-- The providers to ask, how, and for which currencies. -/
structure Query where
  oracle : List Nat
  method : Method
  hasRoom : method.HasRoom
  currency1 : Text
  currency2 : Text
  deriving DecidableEq

/-- A call: its query, the providers it has not asked yet, and the quotes it
has got. -/
structure Call where
  query : Query
  todo : List Nat
  phase : Phase
  quotes : List Quote
  deriving DecidableEq

/-- All providers and all calls, and how often the two clocks were read. -/
structure State where
  providers : Nat → Provider
  calls : List Call
  steadyReadings : Nat
  systemReadings : Nat

/-- The steps. -/
inductive Label where
  | request (query : Query)
  | ask (i : Nat)
  | check (i : Nat)
  | limit (i : Nat)
  | release (i : Nat)
  | fetch (i : Nat) (response : Option Text)
  | update (i : Nat)
  | tick

/-! ## The pieces of a call -/

/-- The time stamp that `getPriceAtTimestamp` works with after reading number
`k`, the reading that decided about it, and the next reading.  `now` is a
reading that was taken before. -/
def resolveTimestamp (system : SystemClock) (k : Nat) (now : Option Int) (timestampMs : Int) :
    Int × Option Int × Nat :=
  if timestampMs = 0 then
    (previousMinute (system.read k), some (system.read k), k + 1)
  else (timestampMs, now, k)

/-- The same for both methods: `getPrice` reads the clock and goes on with
`getPriceAtTimestamp`. -/
def resolve (system : SystemClock) (k : Nat) : Method → Int × Option Int × Nat
  | .getPrice =>
    resolveTimestamp system (k + 1) (some (system.read k)) (previousMinute (system.read k))
  | .getPriceAtTimestamp timestampMs => resolveTimestamp system k none timestampMs

/-- The key of the cache: the symbol, `@` and the close time. -/
def cacheKey (symbol : Text) (candleCloseMs : Int) : Text := symbol ++ 64 :: ofInt candleCloseMs

/-- The symbol of a call at an exchange. -/
def symbolOf (exchange : Exchange) (currency1 currency2 : Text) : Text :=
  exchange.formatSymbol (toUpper currency1) (toUpper currency2)

/-- The end of the loop over the providers: the mean of two prices, or else the
first one. -/
def combine : List Quote → Option Rational
  | [] => none
  | a :: rest =>
    some (match rest with
      | [b] => computeMean a.price b.price
      | _ => a.price)

/-- A call gets a quote.  It goes on with the next provider or returns. -/
def Call.got (call : Call) (quote : Quote) : Call :=
  let quotes := call.quotes ++ [quote]
  { call with
    quotes
    phase :=
      match call.todo, combine quotes with
      | [], some price => .returned price
      | _, _ => .ready }

/-- The time at which the rate limiter lets a call go: now, or as late as the
delay asks for. -/
def wakeTime (rateLimitDelayMs lastRequestTime now : Int) : Int :=
  let elapsed := (now - lastRequestTime).tdiv 1000000
  if elapsed < rateLimitDelayMs then now + (rateLimitDelayMs - elapsed) * 1000000 else now

/-! ## The machine -/

section Machine

variable (exchange : Nat → Exchange) (stod : Text → Option Int64)
variable (steady : Clock) (system : SystemClock)

/-- A provider that was just constructed. -/
def Provider.new : Provider where
  cache := ∅
  lastRequestTime := steady.read 0 - 10 * 10 ^ 9
  limiter := none

/-- The service before the first query. -/
def init : State where
  providers := fun _ => Provider.new steady
  calls := []
  steadyReadings := 1
  systemReadings := 0

namespace State

/-- Replace the call `i`. -/
def setCall (s : State) (i : Nat) (call : Call) : State :=
  { s with calls := s.calls.set i call }

/-- Replace the provider `p`. -/
def setProvider (s : State) (p : Nat) (provider : Provider) : State :=
  { s with providers := Function.update s.providers p provider }

end State

/-- Call `i` turns to its next provider. -/
def askStep (s : State) (i : Nat) (call : Call) : Option State :=
  match call.phase, call.todo with
  | .ready, p :: todo =>
    match resolve system s.systemReadings call.query.method with
    | (timestampMs, now, systemReadings) =>
      let job :=
        { provider := p
          symbol := symbolOf (exchange p) call.query.currency1 call.query.currency2
          candle := candleAt timestampMs
          now }
      some { s.setCall i { call with todo, phase := .checking job } with systemReadings }
  | _, _ => none

/-- Call `i` looks into the cache.  The steady clock is read for an entry that
is there. -/
def checkStep (s : State) (i : Nat) (call : Call) : Option State :=
  match call.phase with
  | .checking job =>
    match (s.providers job.provider).cache.lookup (cacheKey job.symbol job.candle.closeMs) with
    | some entry =>
      let elapsed := steady.read s.steadyReadings - entry.fetchTime
      let call :=
        if (elapsed / 10 ^ 9 : Nat) < (exchange job.provider).cacheTtl then
          call.got { job, price := entry.price, origin := entry.origin }
        else { call with phase := .limiting job }
      some { s.setCall i call with steadyReadings := s.steadyReadings + 1 }
    | none => some (s.setCall i { call with phase := .limiting job })
  | _ => none

/-- Call `i` enters the rate limiter when nobody else is in it. -/
def limitStep (s : State) (i : Nat) (call : Call) : Option State :=
  match call.phase with
  | .limiting job =>
    let provider := s.providers job.provider
    if provider.limiter = none then
      let wakeAt := wakeTime (exchange job.provider).rateLimitDelayMs provider.lastRequestTime
        (steady.read s.steadyReadings)
      some
        { (s.setCall i { call with phase := .sleeping job wakeAt }).setProvider job.provider
            { provider with limiter := some i } with
          steadyReadings := s.steadyReadings + 1 }
    else none
  | _ => none

/-- Call `i` leaves the rate limiter after its sleep. -/
def releaseStep (s : State) (i : Nat) (call : Call) : Option State :=
  match call.phase with
  | .sleeping job wakeAt =>
    if wakeAt ≤ steady.read s.steadyReadings then
      some
        { (s.setCall i { call with phase := .fetching job }).setProvider job.provider
            { s.providers job.provider with
              lastRequestTime := steady.read s.steadyReadings
              limiter := none } with
          steadyReadings := s.steadyReadings + 1 }
    else none
  | _ => none

/-- What becomes of a call when its request has ended: `httpGet` has failed, the
response is no kline, the close price is no number, or there is a price. -/
def afterFetch (job : Job) : Option Text → Phase
  | none => .failed .oracleUnavail
  | some response =>
    match (exchange job.provider).parseKlineResponse response with
    | .error error => .failed error
    | .ok closePriceString =>
      match priceStringToRational stod closePriceString with
      | none => .failed .oracleUnavail
      | some price =>
        .caching job price
          { symbol := job.symbol
            candle := job.candle
            url := (exchange job.provider).buildKlineUrl job.symbol job.candle.openMs
              job.candle.closeMs 1
            response
            closePriceString }

/-- The request of call `i` ends. -/
def fetchStep (s : State) (i : Nat) (call : Call) (response : Option Text) : Option State :=
  match call.phase with
  | .fetching job => some (s.setCall i { call with phase := afterFetch exchange stod job response })
  | _ => none

/-- Call `i` puts its price into the cache. -/
def updateStep (s : State) (i : Nat) (call : Call) : Option State :=
  match call.phase with
  | .caching job price origin =>
    let entry :=
      { price
        candleTimestampMs := job.candle.closeMs
        fetchTime := steady.read s.steadyReadings
        origin }
    let provider := s.providers job.provider
    some
      { (s.setCall i (call.got { job, price, origin })).setProvider job.provider
          { provider with
            cache := provider.cache.insert (cacheKey job.symbol job.candle.closeMs) entry } with
        steadyReadings := s.steadyReadings + 1 }
  | _ => none

/-- One step of the price service. -/
def step (s : State) : Label → Option State
  | .request query =>
    if query.oracle = [] then none
    else
      some { s with
        calls := s.calls ++ [{ query, todo := query.oracle, phase := .ready, quotes := [] }] }
  | .ask i => s.calls[i]?.bind (askStep exchange system s i)
  | .check i => s.calls[i]?.bind (checkStep exchange steady s i)
  | .limit i => s.calls[i]?.bind (limitStep exchange steady s i)
  | .release i => s.calls[i]?.bind (releaseStep steady s i)
  | .fetch i response => s.calls[i]?.bind fun call => fetchStep exchange stod s i call response
  | .update i => s.calls[i]?.bind (updateStep steady s i)
  | .tick =>
    some { s with
      steadyReadings := s.steadyReadings + 1
      systemReadings := s.systemReadings + 1 }

/-- What a step can do, one case for each branch of the step functions. -/
inductive Move (s : State) : Label → State → Prop where
  | request (query : Query) (hne : query.oracle ≠ []) :
      Move s (.request query)
        { s with
          calls := s.calls ++ [{ query, todo := query.oracle, phase := .ready, quotes := [] }] }
  | ask {i p systemReadings : Nat} {call : Call} {todo : List Nat} {timestampMs : Int}
      {now : Option Int} (hcall : s.calls[i]? = some call) (hphase : call.phase = .ready)
      (htodo : call.todo = p :: todo)
      (hresolve : resolve system s.systemReadings call.query.method =
        (timestampMs, now, systemReadings)) :
      Move s (.ask i)
        { s.setCall i { call with
            todo
            phase := .checking
              { provider := p
                symbol := symbolOf (exchange p) call.query.currency1 call.query.currency2
                candle := candleAt timestampMs
                now } } with
          systemReadings }
  | hit {i : Nat} {call : Call} {job : Job} {entry : CacheEntry} (hcall : s.calls[i]? = some call)
      (hphase : call.phase = .checking job)
      (hentry : (s.providers job.provider).cache.lookup
        (cacheKey job.symbol job.candle.closeMs) = some entry)
      (hfresh : ((steady.read s.steadyReadings - entry.fetchTime) / 10 ^ 9 : Nat) <
        (exchange job.provider).cacheTtl) :
      Move s (.check i)
        { s.setCall i (call.got { job, price := entry.price, origin := entry.origin }) with
          steadyReadings := s.steadyReadings + 1 }
  | stale {i : Nat} {call : Call} {job : Job} (hcall : s.calls[i]? = some call)
      (hphase : call.phase = .checking job) :
      Move s (.check i)
        { s.setCall i { call with phase := .limiting job } with
          steadyReadings := s.steadyReadings + 1 }
  | miss {i : Nat} {call : Call} {job : Job} (hcall : s.calls[i]? = some call)
      (hphase : call.phase = .checking job) :
      Move s (.check i) (s.setCall i { call with phase := .limiting job })
  | limit {i : Nat} {call : Call} {job : Job} (hcall : s.calls[i]? = some call)
      (hphase : call.phase = .limiting job)
      (hfree : (s.providers job.provider).limiter = none) :
      Move s (.limit i)
        { (s.setCall i { call with
              phase := .sleeping job
                (wakeTime (exchange job.provider).rateLimitDelayMs
                  (s.providers job.provider).lastRequestTime
                  (steady.read s.steadyReadings)) }).setProvider job.provider
            { s.providers job.provider with limiter := some i } with
          steadyReadings := s.steadyReadings + 1 }
  | release {i : Nat} {call : Call} {job : Job} {wakeAt : Int} (hcall : s.calls[i]? = some call)
      (hphase : call.phase = .sleeping job wakeAt)
      (hawake : wakeAt ≤ steady.read s.steadyReadings) :
      Move s (.release i)
        { (s.setCall i { call with phase := .fetching job }).setProvider job.provider
            { s.providers job.provider with
              lastRequestTime := steady.read s.steadyReadings
              limiter := none } with
          steadyReadings := s.steadyReadings + 1 }
  | fetch {i : Nat} {call : Call} {job : Job} (response : Option Text)
      (hcall : s.calls[i]? = some call) (hphase : call.phase = .fetching job) :
      Move s (.fetch i response)
        (s.setCall i { call with phase := afterFetch exchange stod job response })
  | update {i : Nat} {call : Call} {job : Job} {price : Rational} {origin : Fetch}
      (hcall : s.calls[i]? = some call) (hphase : call.phase = .caching job price origin) :
      Move s (.update i)
        { (s.setCall i (call.got { job, price, origin })).setProvider job.provider
            { s.providers job.provider with
              cache := (s.providers job.provider).cache.insert
                (cacheKey job.symbol job.candle.closeMs)
                { price
                  candleTimestampMs := job.candle.closeMs
                  fetchTime := steady.read s.steadyReadings
                  origin } } with
          steadyReadings := s.steadyReadings + 1 }
  | tick :
      Move s .tick
        { s with
          steadyReadings := s.steadyReadings + 1
          systemReadings := s.systemReadings + 1 }

end Machine

section Moves

variable {exchange : Nat → Exchange} {stod : Text → Option Int64}
variable {steady : Clock} {system : SystemClock} {s s' : State} {i : Nat} {call : Call}

theorem move_of_ask (hcall : s.calls[i]? = some call)
    (hstep : askStep exchange system s i call = some s') :
    Move exchange stod steady system s (.ask i) s' := by
  unfold askStep at hstep
  split at hstep
  · next p todo hphase htodo =>
    obtain rfl := Option.some.inj hstep
    exact .ask hcall hphase htodo rfl
  · cases hstep

theorem move_of_check (hcall : s.calls[i]? = some call)
    (hstep : checkStep exchange steady s i call = some s') :
    Move exchange stod steady system s (.check i) s' := by
  unfold checkStep at hstep
  split at hstep
  · next job hphase =>
    split at hstep
    · next entry hentry =>
      obtain rfl := Option.some.inj hstep
      split
      · next hfresh => exact .hit hcall hphase hentry hfresh
      · exact .stale hcall hphase
    · obtain rfl := Option.some.inj hstep
      exact .miss hcall hphase
  · cases hstep

theorem move_of_limit (hcall : s.calls[i]? = some call)
    (hstep : limitStep exchange steady s i call = some s') :
    Move exchange stod steady system s (.limit i) s' := by
  unfold limitStep at hstep
  split at hstep
  · next job hphase =>
    dsimp only at hstep
    split at hstep
    · next hfree =>
      obtain rfl := Option.some.inj hstep
      exact .limit hcall hphase hfree
    · cases hstep
  · cases hstep

theorem move_of_release (hcall : s.calls[i]? = some call)
    (hstep : releaseStep steady s i call = some s') :
    Move exchange stod steady system s (.release i) s' := by
  unfold releaseStep at hstep
  split at hstep
  · next job wakeAt hphase =>
    split at hstep
    · next hawake =>
      obtain rfl := Option.some.inj hstep
      exact .release hcall hphase hawake
    · cases hstep
  · cases hstep

/-- A step is one of the moves. -/
theorem move_of_step {label : Label} (hstep : step exchange stod steady system s label = some s') :
    Move exchange stod steady system s label s' := by
  cases label with
  | request query =>
    simp only [step] at hstep
    split at hstep
    · cases hstep
    · next hne =>
      obtain rfl := Option.some.inj hstep
      exact .request query hne
  | ask i =>
    obtain ⟨call, hcall, hstep⟩ := Option.bind_eq_some_iff.mp hstep
    exact move_of_ask hcall hstep
  | check i =>
    obtain ⟨call, hcall, hstep⟩ := Option.bind_eq_some_iff.mp hstep
    exact move_of_check hcall hstep
  | limit i =>
    obtain ⟨call, hcall, hstep⟩ := Option.bind_eq_some_iff.mp hstep
    exact move_of_limit hcall hstep
  | release i =>
    obtain ⟨call, hcall, hstep⟩ := Option.bind_eq_some_iff.mp hstep
    exact move_of_release hcall hstep
  | fetch i response =>
    obtain ⟨call, hcall, hstep⟩ := Option.bind_eq_some_iff.mp hstep
    unfold fetchStep at hstep
    split at hstep
    · next job hphase =>
      obtain rfl := Option.some.inj hstep
      exact .fetch response hcall hphase
    · cases hstep
  | update i =>
    obtain ⟨call, hcall, hstep⟩ := Option.bind_eq_some_iff.mp hstep
    unfold updateStep at hstep
    split at hstep
    · next job price origin hphase =>
      obtain rfl := Option.some.inj hstep
      exact .update hcall hphase
    · cases hstep
  | tick =>
    obtain rfl := Option.some.inj hstep
    exact .tick

end Moves

/-! ## Quotes are what their responses say -/

/-- A fetch is the answer to the kline request for its symbol and its candle,
and the close price was found in it. -/
structure FetchOk (exchange : Exchange) (fetch : Fetch) : Prop where
  oneMinute : fetch.candle.openMs = fetch.candle.closeMs - 60000
  url_eq : fetch.url =
    exchange.buildKlineUrl fetch.symbol fetch.candle.openMs fetch.candle.closeMs 1
  parsed : exchange.parseKlineResponse fetch.response = .ok fetch.closePriceString

/-- The candle is the one of the call's time stamp, or the one of a reading of
the wall clock. -/
def Resolved (method : Method) (now : Option Int) (candle : Candle) : Prop :=
  (∃ timestampMs, timestampMs ≠ 0 ∧ method = .getPriceAtTimestamp timestampMs ∧ now = none ∧
    candle = candleAt timestampMs) ∨
  (∃ nowMs, (method = .getPrice ∨ method = .getPriceAtTimestamp 0) ∧ now = some nowMs ∧
    candle = candleAt (previousMinute nowMs))

section Invariant

variable (exchange : Nat → Exchange) (stod : Text → Option Int64)

/-- The job is one of the query. -/
def JobOk (query : Query) (job : Job) : Prop :=
  job.symbol = symbolOf (exchange job.provider) query.currency1 query.currency2 ∧
    Resolved query.method job.now job.candle

/-- The quote is the close price of its job's candle, as the exchange of its
provider has answered it. -/
structure QuoteOk (query : Query) (quote : Quote) : Prop where
  job : JobOk exchange query quote.job
  fetch : FetchOk (exchange quote.job.provider) quote.origin
  symbol_eq : quote.origin.symbol = quote.job.symbol
  candle_eq : quote.origin.candle = quote.job.candle
  price_eq : priceStringToRational stod quote.origin.closePriceString = some quote.price

/-- What holds of a call at its phase. -/
def PhaseOk (call : Call) : Prop :=
  let asked := call.quotes.map fun quote => quote.job.provider
  match call.phase with
  | .ready => asked ++ call.todo = call.query.oracle
  | .checking job | .limiting job | .sleeping job _ | .fetching job =>
    asked ++ job.provider :: call.todo = call.query.oracle ∧ JobOk exchange call.query job
  | .caching job price origin =>
    asked ++ job.provider :: call.todo = call.query.oracle ∧
      QuoteOk exchange stod call.query { job, price, origin }
  | .returned price => asked = call.query.oracle ∧ combine call.quotes = some price
  | .failed _ => True

/-- The quotes of a call are right, and so is its phase. -/
structure CallOk (call : Call) : Prop where
  quotes : ∀ quote ∈ call.quotes, QuoteOk exchange stod call.query quote
  phase : PhaseOk exchange stod call

/-- Every cache entry is the close price of the candle its key names, and every
call is as it should be. -/
structure Inv (s : State) : Prop where
  cache : ∀ p key entry, ⟨key, entry⟩ ∈ (s.providers p).cache.entries →
    key = cacheKey entry.origin.symbol entry.origin.candle.closeMs ∧
    entry.candleTimestampMs = entry.origin.candle.closeMs ∧
    FetchOk (exchange p) entry.origin ∧
    priceStringToRational stod entry.origin.closePriceString = some entry.price
  calls : ∀ call ∈ s.calls, CallOk exchange stod call

end Invariant

variable {exchange : Nat → Exchange} {stod : Text → Option Int64}
variable {steady : Clock} {system : SystemClock}

/-- Symbol and close time are read back from a key, whatever characters the
symbol has. -/
theorem cacheKey_inj {symbol symbol' : Text} {closeMs closeMs' : Int}
    (h : cacheKey symbol closeMs = cacheKey symbol' closeMs') :
    symbol = symbol' ∧ closeMs = closeMs' :=
  append_ofInt_inj (by decide) (by decide) h

theorem resolved_resolveTimestamp {k : Nat} {timestampMs : Int} {now : Option Int}
    {method : Method}
    (hzero : timestampMs = 0 → method = .getPrice ∨ method = .getPriceAtTimestamp 0)
    (hgiven : timestampMs ≠ 0 → Resolved method now (candleAt timestampMs)) :
    Resolved method (resolveTimestamp system k now timestampMs).2.1
      (candleAt (resolveTimestamp system k now timestampMs).1) := by
  unfold resolveTimestamp
  split
  · next heq => exact .inr ⟨system.read k, hzero heq, rfl, rfl⟩
  · next hne => exact hgiven hne

/-- A call settles on the candle of its time stamp or of a reading of the
clock. -/
theorem resolved_resolve (system : SystemClock) (k : Nat) (method : Method) :
    Resolved method (resolve system k method).2.1
      (candleAt (resolve system k method).1) := by
  cases method with
  | getPrice =>
    refine resolved_resolveTimestamp (fun _ => .inl rfl) fun _ => ?_
    exact .inr ⟨system.read k, .inl rfl, rfl, rfl⟩
  | getPriceAtTimestamp timestampMs =>
    refine resolved_resolveTimestamp (fun hzero => .inr (by rw [hzero])) fun hne => ?_
    exact .inl ⟨timestampMs, hne, rfl, rfl, rfl⟩

/-- `int64_t` holds the times of the candle a call settles on. -/
theorem inRange_candle_resolve (system : SystemClock) (k : Nat) {method : Method}
    (h : method.HasRoom) :
    Lib.Checked.InRange (candleAt (resolve system k method).1).openMs ∧
      Lib.Checked.InRange (candleAt (resolve system k method).1).closeMs := by
  have hread := fun j => hasRoom_previousMinute (system.hasRoom j)
  apply inRange_candleAt
  cases method with
  | getPrice =>
    rw [resolve, resolveTimestamp]
    split
    · exact hread (k + 1)
    · exact hread k
  | getPriceAtTimestamp timestampMs =>
    rw [resolve, resolveTimestamp]
    split
    · exact hread k
    · exact h

/-- A candle a call has settled on lasts one minute. -/
theorem Resolved.oneMinute {method : Method} {now : Option Int} {candle : Candle}
    (h : Resolved method now candle) : candle.openMs = candle.closeMs - 60000 := by
  rcases h with ⟨_, _, _, _, rfl⟩ | ⟨_, _, _, rfl⟩ <;> rfl

theorem exists_combine (quotes : List Quote) (quote : Quote) :
    ∃ price, combine (quotes ++ [quote]) = some price := by
  cases quotes <;> exact ⟨_, rfl⟩

/-- A call that gets a quote for its job is as it should be. -/
theorem CallOk.got {call : Call} (h : CallOk exchange stod call) (quote : Quote)
    (hquote : QuoteOk exchange stod call.query quote)
    (horacle : (call.quotes.map fun quote => quote.job.provider) ++
      quote.job.provider :: call.todo = call.query.oracle) :
    CallOk exchange stod (call.got quote) where
  quotes := by
    intro other hmem
    rcases List.mem_append.mp hmem with hmem | hmem
    · exact h.quotes other hmem
    · rw [List.mem_singleton.mp hmem]
      exact hquote
  phase := by
    obtain ⟨price, hcombine⟩ := exists_combine call.quotes quote
    unfold PhaseOk Call.got
    cases htodo : call.todo with
    | nil =>
      rw [htodo] at horacle
      simp only [hcombine, List.map_append, List.map_cons, List.map_nil, horacle, and_self]
    | cons p todo =>
      rw [htodo] at horacle
      simp only [List.map_append, List.map_cons, List.map_nil, List.append_assoc,
        List.singleton_append, horacle]

theorem Inv.setCall {s : State} (h : Inv exchange stod s) (i : Nat) (call : Call)
    (hcall : CallOk exchange stod call) : Inv exchange stod (s.setCall i call) where
  cache := h.cache
  calls := by
    intro other hmem
    rcases List.mem_or_eq_of_mem_set hmem with hmem | rfl
    · exact h.calls other hmem
    · exact hcall

/-- Replacing a provider keeps the invariant if the new cache is right. -/
theorem Inv.setProvider {s : State} (h : Inv exchange stod s) (p : Nat) (provider : Provider)
    (hcache : ∀ key entry, ⟨key, entry⟩ ∈ provider.cache.entries →
      key = cacheKey entry.origin.symbol entry.origin.candle.closeMs ∧
      entry.candleTimestampMs = entry.origin.candle.closeMs ∧
      FetchOk (exchange p) entry.origin ∧
      priceStringToRational stod entry.origin.closePriceString = some entry.price) :
    Inv exchange stod (s.setProvider p provider) where
  cache := by
    intro q key entry hmem
    by_cases hq : q = p
    · subst hq
      simp only [State.setProvider, Function.update_self] at hmem
      exact hcache key entry hmem
    · simp only [State.setProvider, Function.update_of_ne hq] at hmem
      exact h.cache q key entry hmem
  calls := h.calls

/-- The clocks play no part in the invariant. -/
theorem Inv.readings {s : State} (h : Inv exchange stod s)
    (steadyReadings systemReadings : Nat) :
    Inv exchange stod { s with steadyReadings, systemReadings } := ⟨h.cache, h.calls⟩

theorem inv_init : Inv exchange stod (init steady) where
  cache := fun _ _ _ hmem => absurd hmem List.not_mem_nil
  calls := fun _ hmem => absurd hmem List.not_mem_nil

/-- A call whose request has ended is as it should be. -/
theorem phaseOk_afterFetch {call : Call} {job : Job}
    (horacle : (call.quotes.map fun quote => quote.job.provider) ++
      job.provider :: call.todo = call.query.oracle)
    (hjob : JobOk exchange call.query job) (response : Option Text) :
    PhaseOk exchange stod { call with phase := afterFetch exchange stod job response } := by
  cases response with
  | none => trivial
  | some response =>
    rw [afterFetch]
    cases hparse : (exchange job.provider).parseKlineResponse response with
    | error error => trivial
    | ok closePriceString =>
      cases hprice : priceStringToRational stod closePriceString with
      | none => simp only [hprice, PhaseOk]
      | some price =>
        simp only [hprice, PhaseOk]
        exact ⟨horacle, hjob, ⟨hjob.2.oneMinute, rfl, hparse⟩, rfl, rfl, hprice⟩

/-- A cache entry under the key of a job is the answer to it. -/
theorem Inv.quoteOk_hit {s : State} (h : Inv exchange stod s) {query : Query} {job : Job}
    (hjob : JobOk exchange query job) {entry : CacheEntry}
    (hentry : (s.providers job.provider).cache.lookup (cacheKey job.symbol job.candle.closeMs) =
      some entry) :
    QuoteOk exchange stod query { job, price := entry.price, origin := entry.origin } := by
  obtain ⟨hkey, -, hfetch, hprice⟩ := h.cache _ _ entry (AList.mem_lookup_iff.mp hentry)
  obtain ⟨hsymbol, hclose⟩ := cacheKey_inj hkey
  -- the key has the close time, and all candles have one minute
  have hcandle : entry.origin.candle = job.candle := by
    have hopen := hfetch.oneMinute
    rw [← hclose] at hopen
    exact Candle.ext (hopen.trans hjob.2.oneMinute.symm) hclose.symm
  exact ⟨hjob, hfetch, hsymbol.symm, hcandle, hprice⟩

/-- Every step keeps the invariant. -/
theorem inv_step {s s' : State} {label : Label} (h : Inv exchange stod s)
    (hstep : step exchange stod steady system s label = some s') : Inv exchange stod s' := by
  have hmem {i : Nat} {call : Call} (hcall : s.calls[i]? = some call) : CallOk exchange stod call :=
    h.calls _ (List.mem_of_getElem? hcall)
  cases move_of_step hstep with
  | request query =>
    refine ⟨h.cache, ?_⟩
    intro call hcall
    rcases List.mem_append.mp hcall with hcall | hcall
    · exact h.calls call hcall
    · obtain rfl := List.mem_singleton.mp hcall
      exact ⟨fun _ hquote => absurd hquote List.not_mem_nil, rfl⟩
  | @ask i p systemReadings call todo timestampMs now hcall hphase htodo hresolve =>
    have hready := (hmem hcall).phase
    rw [PhaseOk, hphase, htodo] at hready
    have hresolved := resolved_resolve system s.systemReadings call.query.method
    rw [hresolve] at hresolved
    refine (h.setCall _ _ ?_).readings _ _
    exact ⟨(hmem hcall).quotes, hready, rfl, hresolved⟩
  | hit hcall hphase hentry =>
    have hchecking := (hmem hcall).phase
    rw [PhaseOk, hphase] at hchecking
    exact (h.setCall _ _ ((hmem hcall).got _ (h.quoteOk_hit hchecking.2 hentry)
      hchecking.1)).readings _ _
  | stale hcall hphase =>
    have hchecking := (hmem hcall).phase
    rw [PhaseOk, hphase] at hchecking
    refine (h.setCall _ _ ?_).readings _ _
    exact ⟨(hmem hcall).quotes, hchecking⟩
  | miss hcall hphase =>
    have hchecking := (hmem hcall).phase
    rw [PhaseOk, hphase] at hchecking
    refine h.setCall _ _ ?_
    exact ⟨(hmem hcall).quotes, hchecking⟩
  | limit hcall hphase =>
    have hlimiting := (hmem hcall).phase
    rw [PhaseOk, hphase] at hlimiting
    refine ((h.setCall _ _ ?_).setProvider _ _ ?_).readings _ _
    · exact ⟨(hmem hcall).quotes, hlimiting⟩
    · exact h.cache _
  | release hcall hphase =>
    have hsleeping := (hmem hcall).phase
    rw [PhaseOk, hphase] at hsleeping
    refine ((h.setCall _ _ ?_).setProvider _ _ ?_).readings _ _
    · exact ⟨(hmem hcall).quotes, hsleeping⟩
    · exact h.cache _
  | fetch response hcall hphase =>
    have hfetching := (hmem hcall).phase
    rw [PhaseOk, hphase] at hfetching
    refine h.setCall _ _ ?_
    exact ⟨(hmem hcall).quotes, phaseOk_afterFetch hfetching.1 hfetching.2 response⟩
  | @update i call job price origin hcall hphase =>
    have hcaching := (hmem hcall).phase
    rw [PhaseOk, hphase] at hcaching
    obtain ⟨horacle, hquote⟩ := hcaching
    refine ((h.setCall _ _ ((hmem hcall).got _ hquote horacle)).setProvider _ _ ?_).readings _ _
    intro key entry hentry
    rcases mem_insert hentry with heq | hold
    · -- the new entry is the quote under the key of its job
      obtain ⟨rfl, hval⟩ := Sigma.mk.inj heq
      obtain rfl := eq_of_heq hval
      have hsymbol : origin.symbol = job.symbol := hquote.symbol_eq
      have hcandle : origin.candle = job.candle := hquote.candle_eq
      exact ⟨by rw [hsymbol, hcandle], by rw [hcandle], hquote.fetch, hquote.price_eq⟩
    · exact h.cache _ key entry hold
  | tick => exact ⟨h.cache, h.calls⟩

theorem inv_run {labels : List Label} {s : State}
    (hrun : Runs (step exchange stod steady system) anyStep (init steady) labels s) :
    Inv exchange stod s :=
  hrun.invariant (fun _ _ _ h _ hstep => inv_step h hstep) inv_init

/-! ## The candles of a mean -/

/-- Two readings of the wall clock in the same minute. -/
def SameMinute (now now' : Option Int) : Prop :=
  ∃ m n, now = some m ∧ now' = some n ∧ m.tdiv 60000 = n.tdiv 60000

/-- Two quotes of one query have the same candle when the query names a time, or
when both providers have read the clock in the same minute. -/
theorem candle_eq_iff {query : Query} {a b : Quote} (ha : QuoteOk exchange stod query a)
    (hb : QuoteOk exchange stod query b) :
    a.origin.candle = b.origin.candle ↔
      (∃ timestampMs, timestampMs ≠ 0 ∧ query.method = .getPriceAtTimestamp timestampMs) ∨
        SameMinute a.job.now b.job.now := by
  rw [ha.candle_eq, hb.candle_eq]
  rcases ha.job.2 with ⟨t, hne, hmethod, hnow, hcandle⟩ | ⟨m, hmethod, hnow, hcandle⟩
  · rcases hb.job.2 with ⟨t', -, hmethod', -, hcandle'⟩ | ⟨_, hmethod', -, -⟩
    · have heq : t = t' := Method.getPriceAtTimestamp.inj (hmethod.symm.trans hmethod')
      rw [hcandle, hcandle', heq]
      exact iff_of_true rfl (.inl ⟨t, hne, hmethod⟩)
    · simp [hmethod, hne] at hmethod'
  · have hcurrent : ¬ ∃ t, t ≠ 0 ∧ query.method = .getPriceAtTimestamp t := by
      rintro ⟨t, hne, ht⟩
      simp [ht, hne] at hmethod
    rcases hb.job.2 with ⟨t', hne', hmethod', -, -⟩ | ⟨n, -, hnow', hcandle'⟩
    · exact absurd ⟨t', hne', hmethod'⟩ hcurrent
    · rw [hcandle, hcandle', candleAt_previousMinute_inj, or_iff_right hcurrent, hnow, hnow']
      simp [SameMinute]

/-- In every run, a combined query that succeeds returns the mean of two quotes.
Each quote is the close price that its exchange has sent for a candle.  The two
candles are the same exactly when the query names a time, or when both
providers have read the wall clock in the same minute. -/
theorem mean_of_one_candle_iff {labels : List Label} {s : State}
    (hrun : Runs (step exchange stod steady system) anyStep (init steady) labels s)
    {call : Call} (hcall : call ∈ s.calls) {p q : Nat} (horacle : call.query.oracle = [p, q])
    {price : Rational} (hreturned : call.phase = .returned price) :
    ∃ a b, call.quotes = [a, b] ∧ price = computeMean a.price b.price ∧
      a.job.provider = p ∧ b.job.provider = q ∧
      QuoteOk exchange stod call.query a ∧ QuoteOk exchange stod call.query b ∧
      (a.origin.candle = b.origin.candle ↔
        (∃ timestampMs, timestampMs ≠ 0 ∧
          call.query.method = .getPriceAtTimestamp timestampMs) ∨
          SameMinute a.job.now b.job.now) := by
  obtain ⟨hquotes, hphase⟩ := (inv_run hrun).calls call hcall
  rw [PhaseOk, hreturned, horacle] at hphase
  obtain ⟨hasked, hcombine⟩ := hphase
  match hlist : call.quotes, hasked with
  | [a, b], hasked =>
    rw [hlist] at hcombine hquotes
    have ha := hquotes a List.mem_cons_self
    have hb := hquotes b (List.mem_cons_of_mem a List.mem_cons_self)
    simp only [List.map_cons, List.map_nil, List.cons.injEq, and_true] at hasked
    exact ⟨a, b, rfl, (Option.some.inj hcombine).symm, hasked.1, hasked.2, ha, hb,
      candle_eq_iff ha hb⟩

/-- A wall clock that passes a minute between its first two readings. -/
def minuteBoundary : SystemClock where
  read k := if k = 0 then 179999 else 180000
  hasRoom k := by split <;> decide

/-- Binance and MEXC. -/
def twoExchanges (p : Nat) : Exchange := if p = 0 then binance false else mexc false

/-- A steady clock that moves on by a second with every reading. -/
def steadySeconds : Clock where
  read k := k * 10 ^ 9
  mono := fun _ _ hle => Nat.mul_le_mul_right _ hle

/-- The steps of call `i` at one provider that has to fetch the price. -/
def fetchLabels (i : Nat) (response : String) : List Label :=
  [.ask i, .check i, .limit i, .release i, .fetch i (some (ascii response)), .update i]

/-- A query for the current price while a minute passes. -/
def currentPriceLabels : List Label :=
  .request { oracle := [0, 1], method := .getPriceAtTimestamp 0, hasRoom := by decide,
             currency1 := ascii "BTC", currency2 := ascii "USDT" } ::
    (fetchLabels 0 "[[0,\"1\",\"1\",\"1\",\"5\"]]" ++
      fetchLabels 0 "[[60000,\"1\",\"1\",\"1\",\"7\"]]")

theorem runs_currentPriceLabels :
    ∃ (s : State) (call : Call),
      Runs (step twoExchanges (fun _ => none) steadySeconds minuteBoundary) anyStep
        (init steadySeconds) currentPriceLabels s ∧
      call ∈ s.calls ∧ call.query.oracle = [0, 1] ∧ call.phase = .returned ⟨6, 1⟩ ∧
      call.quotes.map (fun quote => quote.origin.candle) = [⟨0, 60000⟩, ⟨60000, 120000⟩] := by
  have hexec : (exec (step twoExchanges (fun _ => none) steadySeconds minuteBoundary)
      (init steadySeconds) currentPriceLabels).map (fun s => s.calls.map fun call =>
        (call.query.oracle, call.phase, call.quotes.map fun quote => quote.origin.candle)) =
      some [([0, 1], .returned ⟨6, 1⟩, [⟨0, 60000⟩, ⟨60000, 120000⟩])] := by decide
  obtain ⟨s, hs, hcalls⟩ := Option.map_eq_some_iff.mp hexec
  obtain ⟨call, hcall, hview⟩ := List.map_eq_singleton_iff.mp hcalls
  obtain ⟨horacle, hphase, hcandles⟩ : _ ∧ _ ∧ _ := by
    simpa only [Prod.mk.injEq] using hview
  exact ⟨s, call, runs_of_exec (fun _ _ _ => trivial) hs, hcall ▸ List.mem_cons_self, horacle,
    hphase, hcandles⟩

/-- The mean of the close prices of two different minutes. -/
theorem mean_of_two_candles :
    ∃ (s : State) (call : Call) (a b : Quote),
      Runs (step twoExchanges (fun _ => none) steadySeconds minuteBoundary) anyStep
        (init steadySeconds) currentPriceLabels s ∧
      call ∈ s.calls ∧ call.query.oracle = [0, 1] ∧ call.phase = .returned ⟨6, 1⟩ ∧
      call.quotes = [a, b] ∧ a.origin.candle ≠ b.origin.candle := by
  obtain ⟨s, call, hrun, hcall, horacle, hphase, hcandles⟩ := runs_currentPriceLabels
  obtain ⟨a, rest, hquotes, ha, hrest⟩ := List.map_eq_cons_iff.mp hcandles
  obtain ⟨b, rfl, hb⟩ := List.map_eq_singleton_iff.mp hrest
  refine ⟨s, call, a, b, hrun, hcall, horacle, hphase, hquotes, ?_⟩
  rw [ha, hb]
  decide

/-- The condition at the query for the current price while a minute passes. -/
theorem mean_of_one_candle_iff_currentPrice :
    ∃ (call : Call) (a b : Quote), call.phase = .returned ⟨6, 1⟩ ∧
      call.quotes = [a, b] ∧
      (a.origin.candle = b.origin.candle ↔
        (∃ timestampMs, timestampMs ≠ 0 ∧
          call.query.method = .getPriceAtTimestamp timestampMs) ∨
          SameMinute a.job.now b.job.now) := by
  obtain ⟨s, call, hrun, hcall, horacle, hphase, -⟩ := runs_currentPriceLabels
  obtain ⟨a, b, hquotes, -, -, -, -, -, hiff⟩ :=
    mean_of_one_candle_iff hrun hcall horacle hphase
  exact ⟨call, a, b, hphase, hquotes, hiff⟩

/-! ## The value of a price -/

/-- In every run, a price that is returned without an error is exact in these
cases and in no others.  A price of one source is exact if its close price
string fits.  A mean of strings with at most 18 fractional digits is exact if
both strings have a digit and their common sum fits.  A mean of two strings, one
of which has 64 or more fractional digits, is not exact. -/
theorem price_exact_iff {labels : List Label} {s : State}
    (hrun : Runs (step exchange stod steady system) anyStep (init steady) labels s)
    {call : Call} (hcall : call ∈ s.calls) {price : Rational}
    (hreturned : call.phase = .returned price) :
    (∀ a, call.quotes = [a] → IsDecimal a.origin.closePriceString →
      (Exact a.origin.closePriceString price ↔ Fits a.origin.closePriceString)) ∧
    (∀ a b, call.quotes = [a, b] →
      IsDecimal a.origin.closePriceString → IsDecimal b.origin.closePriceString →
      (fractionDigits a.origin.closePriceString ≤ 18 →
        fractionDigits b.origin.closePriceString ≤ 18 →
        (ExactMean a.origin.closePriceString b.origin.closePriceString price ↔
          HasDigit a.origin.closePriceString ∧ HasDigit b.origin.closePriceString ∧
            commonSum a.origin.closePriceString b.origin.closePriceString < 2 ^ 63)) ∧
      (64 ≤ fractionDigits a.origin.closePriceString ∨
          64 ≤ fractionDigits b.origin.closePriceString →
        ¬ ExactMean a.origin.closePriceString b.origin.closePriceString price)) := by
  obtain ⟨hquotes, hphase⟩ := (inv_run hrun).calls call hcall
  rw [PhaseOk, hreturned] at hphase
  obtain ⟨-, hcombine⟩ := hphase
  have hprice : ∀ a ∈ call.quotes, IsDecimal a.origin.closePriceString →
      a.price = ⟨Int64.ofNat (significand a.origin.closePriceString),
        Int64.ofNat (10 ^ fractionDigits a.origin.closePriceString)⟩ := by
    intro a ha hdecimal
    have hconverted := (hquotes a ha).price_eq
    rw [priceStringToRational_decimal stod hdecimal] at hconverted
    exact (Option.some.inj hconverted).symm
  refine ⟨?_, ?_⟩
  · intro a hlist hdecimal
    rw [hlist] at hcombine
    have ha := hprice a (hlist ▸ List.mem_cons_self) hdecimal
    obtain rfl : a.price = price := Option.some.inj hcombine
    rw [ha]
    exact exact_iff_fits _
  · intro a b hlist hdecimal hdecimal'
    rw [hlist] at hcombine
    have ha := hprice a (hlist ▸ List.mem_cons_self) hdecimal
    have hb := hprice b (hlist ▸ List.mem_cons_of_mem a List.mem_cons_self) hdecimal'
    obtain rfl : computeMean a.price b.price = price := Option.some.inj hcombine
    rw [ha, hb]
    exact ⟨exactMean_iff, not_exactMean⟩

/-- A query for the first candle of 1970 at one provider. -/
def firstCandleQuery (p : Nat) : Query where
  oracle := [p]
  method := .getPriceAtTimestamp 60000
  hasRoom := by decide
  currency1 := ascii "BTC"
  currency2 := ascii "USDT"

/-- Two queries of single sources: the first close price does not fit, the
second one has no digits. -/
def wrongPriceLabels : List Label :=
  .request (firstCandleQuery 0) ::
      fetchLabels 0 "[[0,\"1\",\"1\",\"1\",\"9223372036854775808\"]]" ++
    .request (firstCandleQuery 1) :: fetchLabels 1 "[[0,\"1\",\"1\",\"1\",\"\"]]"

theorem runs_wrongPriceLabels :
    ∃ (s : State) (call call' : Call) (a b : Quote),
      Runs (step twoExchanges (fun _ => none) steadySeconds minuteBoundary) anyStep
        (init steadySeconds) wrongPriceLabels s ∧
      s.calls = [call, call'] ∧ call.quotes = [a] ∧ call'.quotes = [b] ∧
      call.phase = .returned ⟨-9223372036854775808, 1⟩ ∧ call'.phase = .returned ⟨0, 1⟩ ∧
      a.origin.closePriceString = ascii "9223372036854775808" ∧
      b.origin.closePriceString = [] := by
  have hexec : (exec (step twoExchanges (fun _ => none) steadySeconds minuteBoundary)
      (init steadySeconds) wrongPriceLabels).map (fun s => s.calls.map fun call =>
        (call.phase, call.quotes.map fun quote => quote.origin.closePriceString)) =
      some [(.returned ⟨-9223372036854775808, 1⟩, [ascii "9223372036854775808"]),
        (.returned ⟨0, 1⟩, [[]])] := by decide
  obtain ⟨s, hs, hcalls⟩ := Option.map_eq_some_iff.mp hexec
  obtain ⟨call, rest, hlist, hview, hrest⟩ := List.map_eq_cons_iff.mp hcalls
  obtain ⟨call', rfl, hview'⟩ := List.map_eq_singleton_iff.mp hrest
  obtain ⟨hphase, hstrings⟩ := Prod.mk.inj hview
  obtain ⟨hphase', hstrings'⟩ := Prod.mk.inj hview'
  obtain ⟨a, hquotes, ha⟩ := List.map_eq_singleton_iff.mp hstrings
  obtain ⟨b, hquotes', hb⟩ := List.map_eq_singleton_iff.mp hstrings'
  exact ⟨s, call, call', a, b, runs_of_exec (fun _ _ _ => trivial) hs, hlist, hquotes, hquotes',
    hphase, hphase', ha, hb⟩

/-- A close price that does not fit is returned as a negative price, and one
without digits as zero. -/
theorem wrong_prices_are_returned :
    ∃ (s : State) (call call' : Call) (a b : Quote),
      Runs (step twoExchanges (fun _ => none) steadySeconds minuteBoundary) anyStep
        (init steadySeconds) wrongPriceLabels s ∧
      s.calls = [call, call'] ∧ call.quotes = [a] ∧ call'.quotes = [b] ∧
      call.phase = .returned ⟨-9223372036854775808, 1⟩ ∧ call'.phase = .returned ⟨0, 1⟩ ∧
      IsDecimal a.origin.closePriceString ∧ IsDecimal b.origin.closePriceString ∧
      ¬ Exact a.origin.closePriceString ⟨-9223372036854775808, 1⟩ ∧
      ¬ Exact b.origin.closePriceString ⟨0, 1⟩ := by
  obtain ⟨s, call, call', a, b, hrun, hcalls, hquotes, hquotes', hphase, hphase', ha, hb⟩ :=
    runs_wrongPriceLabels
  refine ⟨s, call, call', a, b, hrun, hcalls, hquotes, hquotes', hphase, hphase', ?_⟩
  rw [ha, hb]
  refine ⟨by decide +kernel, by decide +kernel, ?_, ?_⟩
  · intro hexact
    have hfits := (exact_iff_fits (ascii "9223372036854775808")).mp hexact
    exact absurd hfits.2 (by decide)
  · rintro ⟨⟨c, hc, -⟩, -⟩
    exact List.not_mem_nil hc

/-- The condition at the close price that does not fit. -/
theorem price_exact_iff_wrongPrice :
    ∃ (call : Call) (a : Quote), call.phase = .returned ⟨-9223372036854775808, 1⟩ ∧
      call.quotes = [a] ∧
      (Exact a.origin.closePriceString ⟨-9223372036854775808, 1⟩ ↔
        Fits a.origin.closePriceString) := by
  obtain ⟨s, call, call', a, b, hrun, hcalls, hquotes, -, hphase, -, ha, -⟩ :=
    runs_wrongPriceLabels
  refine ⟨call, a, hphase, hquotes, ?_⟩
  exact (price_exact_iff hrun (hcalls ▸ List.mem_cons_self) hphase).1 a hquotes
    (ha ▸ by decide +kernel)

end OracleMachine.Price.Providers
