import OracleMachine.Lib.Calendar
import OracleMachine.Price.CandleChoice

/-!
# Price queries

`PriceService::processInterfaceQuery` decodes a query, finds the provider that
it names and asks it for the price of a pair of currencies at a time.  A time
stamp of zero stands for now.

`Interface` has what the code takes from the `qubic_core` submodule, the layout
of the query.  The fields of its time stamp have the widths of
`QPI::DateAndTime`.  `timegm` is exact and normalises fields that are out of
range, as the C library does.

`processInterfaceQuery_spec` says what becomes of a query: the exchange
providers it names are asked for `exchangeQuery` once and nobody else is asked,
and their answer is returned.

The time stamp passes through three layers before it selects a candle: the test
for zero, which looks at six of the eight fields, the conversion to
milliseconds, which answers `0` where `timegm` answers `-1`, and the provider,
which takes `0` for now.  `historical_candle_iff` says for which time stamps the
candle is the one they ask for.
-/

namespace OracleMachine.Price.PriceService

open Lib.Calendar Lib.Decimal Lib.Text Providers

/-! ## Time stamps -/

/-- `struct tm`. -/
structure Tm where
  year : Int
  mon : Int
  mday : Int
  hour : Int
  min : Int
  sec : Int

/-- `timegm`.  A month out of range counts for the years before or after. -/
def timegm (tm : Tm) : Int :=
  unixSeconds (1900 + tm.year + tm.mon / 12) ((tm.mon % 12).toNat + 1) tm.mday tm.hour tm.min
    tm.sec

/-- `QPI::DateAndTime`, by the bit fields of its 64 bits. -/
structure DateAndTime where
  year : Nat
  month : Nat
  day : Nat
  hour : Nat
  minute : Nat
  second : Nat
  millisec : Nat
  microsecDuringMillisec : Nat
  widths : year < 2 ^ 16 ∧ month < 2 ^ 4 ∧ day < 2 ^ 5 ∧ hour < 2 ^ 5 ∧ minute < 2 ^ 6 ∧
    second < 2 ^ 6 ∧ millisec < 2 ^ 10 ∧ microsecDuringMillisec < 2 ^ 10
  deriving DecidableEq

namespace DateAndTime

/-- The time stamp with all bits zero. -/
def zero : DateAndTime := ⟨0, 0, 0, 0, 0, 0, 0, 0, by decide⟩

def toTm (dt : DateAndTime) : Tm where
  year := dt.year - 1900
  mon := dt.month - 1
  mday := dt.day
  hour := dt.hour
  min := dt.minute
  sec := dt.second

end DateAndTime

/-- `dateTimeToUnixMs`. -/
def dateTimeToUnixMs (dt : DateAndTime) : Int :=
  let t := timegm dt.toTm
  if t = -1 then 0 else t * 1000 + dt.millisec

/-- `isCurrentPrice`. -/
def isCurrentPrice (timestamp : DateAndTime) : Bool :=
  timestamp.year = 0 && timestamp.month = 0 && timestamp.day = 0 && timestamp.hour = 0 &&
    timestamp.minute = 0 && timestamp.second = 0

/-- `timestampMs`. -/
def timestampMs (timestamp : DateAndTime) : Int :=
  if isCurrentPrice timestamp then 0 else dateTimeToUnixMs timestamp

/-- No time stamp is further from 1970 than about 65000 years. -/
theorem timegm_bounds (dt : DateAndTime) :
    -10 ^ 13 < timegm dt.toTm ∧ timegm dt.toTm < 10 ^ 13 := by
  obtain ⟨hyear, hmonth, hday, hhour, hminute, hsecond, -, -⟩ := dt.widths
  have hdays := daysBeforeMonth_le (1900 + dt.toTm.year + dt.toTm.mon / 12)
    ((dt.toTm.mon % 12).toNat + 1)
  rw [timegm, unixSeconds, dayNumber, daysBeforeYear]
  generalize daysBeforeMonth _ _ = days at hdays ⊢
  simp only [DateAndTime.toTm, daysBeforeYear] at hdays ⊢
  omega

/-- A time stamp has room for its candle. -/
theorem hasRoom_timestampMs (dt : DateAndTime) : HasRoom 60000 (timestampMs dt) := by
  have hbounds := timegm_bounds dt
  obtain ⟨-, -, -, -, -, -, hmillisec, -⟩ := dt.widths
  simp only [HasRoom, Lib.Checked.InRange, timestampMs, dateTimeToUnixMs]
  split
  · decide
  · split
    · decide
    · omega

/-! ## Providers -/

/-- `bytesToString`. -/
def bytesToString (data : List UInt8) (maxLen : Nat) : Text :=
  (data.take maxLen).takeWhile (· ≠ 0)

/-- `::tolower` on every byte. -/
def toLower (s : Text) : Text := s.map fun c => if 65 ≤ c && c ≤ 90 then c + 32 else c

/-- `normalizeOracleId`: the names around the first `_` in alphabetical order. -/
def normalizeOracleId (oracleId : Text) : Text :=
  match cut 95 oracleId with
  | (first, some second) =>
    if second < first then second ++ 95 :: first else first ++ 95 :: second
  | (_, none) => oracleId

/-- A registered provider: the mock, or the exchange providers whose prices are
combined. -/
inductive Source where
  | mock
  | exchanges (oracle : List Nat)
  deriving DecidableEq

/-- `_providers`, as the constructor of the service fills it. -/
def providers : List (Text × Source) :=
  [(ascii "mock", .mock),
   (ascii "binance", .exchanges [0]),
   (ascii "mexc", .exchanges [1]),
   (ascii "gate", .exchanges [2]),
   (ascii "binance_mexc", .exchanges [3, 4]),
   (ascii "binance_gate", .exchanges [5, 6]),
   (ascii "gate_mexc", .exchanges [7, 8])]

/-- The exchange providers of the service.  Every combined provider has its own
two. -/
def registered (binancePaid mexcPaid gatePaid : Bool) (p : Nat) : Exchange :=
  match p with
  | 0 | 3 | 5 => binance binancePaid
  | 1 | 4 | 7 => mexc mexcPaid
  | _ => gate gatePaid

/-- The prices of `MockPriceProvider`. -/
def mockPrices : List (Text × Rational) :=
  [(ascii "BTC/USD", ⟨45000, 1⟩), (ascii "ETH/USD", ⟨3000, 1⟩), (ascii "BTC/ETH", ⟨15, 1⟩),
   (ascii "ETH/BTC", ⟨1, 15⟩)]

/-- `MockPriceProvider::getPrice`. -/
def mockGetPrice (currency1 currency2 : Text) : Except OracleError Rational :=
  match mockPrices.lookup (currency1 ++ ascii "/" ++ currency2) with
  | some price => .ok price
  | none => .error .invalidArg

/-- `PriceProvider::getPriceAtTimestamp`, which the mock inherits. -/
def mockGetPriceAtTimestamp (currency1 currency2 : Text) (timestampMs : Int) :
    Except OracleError Rational :=
  if timestampMs = 0 then mockGetPrice currency1 currency2 else .error .invalidArg

/-! ## `processInterfaceQuery` -/

/-- `Price::OracleQuery`. -/
structure OracleQuery where
  oracle : List UInt8
  timestamp : DateAndTime
  currency1 : List UInt8
  currency2 : List UInt8

/-- What the code takes from the `qubic_core` submodule. -/
structure Interface where
  querySize : Nat
  oracleQuery : List UInt8 → OracleQuery

/-- The errors of the service: those of the providers, and that there is no
such provider. -/
inductive ServiceError where
  | provider (error : OracleError)
  | invalidOracle
  deriving DecidableEq

section Query

variable {P : Type}

/-- The provider of a query in `_providers`. -/
def route (providers : List (Text × P)) (query : OracleQuery) : Option P :=
  providers.lookup (normalizeOracleId (toLower (bytesToString query.oracle 32)))

/-- The provider a query names, and the query for it. -/
def findProvider (I : Interface) (providers : List (Text × P)) (queryPayload : List UInt8) :
    Except ServiceError (P × OracleQuery) :=
  if queryPayload.length < I.querySize then .error (.provider .invalidArg)
  else
    let query := I.oracleQuery queryPayload
    match route providers query with
    | none => .error .invalidOracle
    | some provider => .ok (provider, query)

/-- The arguments of `getPriceAtTimestamp`. -/
structure Request where
  currency1 : Text
  currency2 : Text
  timestampMs : Int
  hasRoom : HasRoom 60000 timestampMs

/-- The arguments for a query. -/
def OracleQuery.request (query : OracleQuery) : Request where
  currency1 := bytesToString query.currency1 32
  currency2 := bytesToString query.currency2 32
  timestampMs := timestampMs query.timestamp
  hasRoom := hasRoom_timestampMs query.timestamp

/-- `PriceService::processInterfaceQuery`.  `getPriceAtTimestamp` is the virtual
member of the providers. -/
def processInterfaceQuery {m : Type → Type} [Monad m] (I : Interface)
    (providers : List (Text × P))
    (getPriceAtTimestamp : P → Request → m (Except OracleError Rational))
    (queryPayload : List UInt8) : m (Except ServiceError Rational) :=
  match findProvider I providers queryPayload with
  | .error error => pure (.error error)
  | .ok (provider, query) => do
    let returned ← getPriceAtTimestamp provider query.request
    pure (returned.mapError .provider)

theorem findProvider_eq_ok_iff {I : Interface} {providers : List (Text × P)}
    {queryPayload : List UInt8} {provider : P} {query : OracleQuery} :
    findProvider I providers queryPayload = .ok (provider, query) ↔
      I.querySize ≤ queryPayload.length ∧ I.oracleQuery queryPayload = query ∧
        route providers query = some provider := by
  rw [findProvider]
  by_cases hsize : queryPayload.length < I.querySize
  · rw [if_pos hsize]
    refine iff_of_false (fun h => nomatch h) ?_
    omega
  · rw [if_neg hsize, and_iff_right (Nat.le_of_not_lt hsize)]
    constructor
    · intro h
      dsimp only at h
      split at h
      · cases h
      · next found hroute =>
        cases h
        exact ⟨rfl, hroute⟩
    · rintro ⟨rfl, hroute⟩
      simp only [hroute]

/-- In a map with one entry for each key, a lookup finds the entry. -/
theorem lookup_eq_some_iff {entries : List (Text × P)} (hkeys : (entries.map Prod.fst).Nodup)
    {key : Text} {p : P} : entries.lookup key = some p ↔ (key, p) ∈ entries := by
  induction entries with
  | nil => simp
  | cons entry entries ih =>
    rw [List.map_cons, List.nodup_cons] at hkeys
    rw [List.lookup_cons, List.mem_cons]
    by_cases hkey : key = entry.1
    · have hnotMem : (key, p) ∉ entries := by
        intro hmem
        exact hkeys.1 (hkey ▸ List.mem_map_of_mem hmem)
      rw [beq_iff_eq.mpr hkey, or_iff_left hnotMem, Option.some.injEq, hkey, Prod.ext_iff]
      exact ⟨fun h => ⟨rfl, h.symm⟩, fun h => h.2.symm⟩
    · have hne : (key, p) ≠ entry := fun h => hkey (congrArg Prod.fst h)
      rw [beq_false_of_ne hkey, or_iff_right hne]
      exact ih hkeys.2

end Query

/-! ## What a query asks for -/

/-- What the exchange providers of an oracle are asked by these arguments. -/
def Request.toQuery (request : Request) (oracle : List Nat) : Query where
  oracle
  method := .getPriceAtTimestamp request.timestampMs
  hasRoom := request.hasRoom
  currency1 := request.currency1
  currency2 := request.currency2

/-- What exchange providers are asked for a query. -/
def exchangeQuery (oracle : List Nat) (query : OracleQuery) : Query := query.request.toQuery oracle

/-- `getPriceAtTimestamp` of the registered providers.  `ask` puts a query to
exchange providers. -/
def Source.getPriceAtTimestamp {m : Type → Type} [Monad m]
    (ask : Query → m (Except OracleError Rational)) :
    Source → Request → m (Except OracleError Rational)
  | .mock, request =>
    pure (mockGetPriceAtTimestamp request.currency1 request.currency2 request.timestampMs)
  | .exchanges oracle, request => ask (request.toQuery oracle)

section Asked

variable (answer : Query → Except OracleError Rational)

/-- Exchange providers that write down what they are asked. -/
def recorded (query : Query) : StateM (List Query) (Except OracleError Rational) := do
  modify fun asked => asked ++ [query]
  pure (answer query)

/-- What `processInterfaceQuery` returns, and what it asks exchange providers. -/
def returnedAndAsked (I : Interface) (providers : List (Text × Source))
    (queryPayload : List UInt8) : Except ServiceError Rational × List Query :=
  (processInterfaceQuery I providers (Source.getPriceAtTimestamp (recorded answer))
    queryPayload).run []

/-- The provider has this price for a query. -/
def Source.Prices (query : OracleQuery) (price : Rational) : Source → Prop
  | .mock =>
    timestampMs query.timestamp = 0 ∧
      (bytesToString query.currency1 32 ++ ascii "/" ++ bytesToString query.currency2 32, price) ∈
        mockPrices
  | .exchanges oracle => answer (exchangeQuery oracle query) = .ok price

theorem mockGetPriceAtTimestamp_eq_ok_iff {currency1 currency2 : Text} {ms : Int}
    {price : Rational} :
    mockGetPriceAtTimestamp currency1 currency2 ms = .ok price ↔
      ms = 0 ∧ (currency1 ++ ascii "/" ++ currency2, price) ∈ mockPrices := by
  rw [← lookup_eq_some_iff (by decide +kernel), mockGetPriceAtTimestamp, mockGetPrice]
  by_cases hzero : ms = 0
  · rw [if_pos hzero, and_iff_right hzero]
    cases mockPrices.lookup (currency1 ++ ascii "/" ++ currency2) with
    | none => simp
    | some found => simp
  · rw [if_neg hzero]
    exact iff_of_false (fun h => nomatch h) fun h => hzero h.1

theorem mapError_eq_ok_iff {returned : Except OracleError Rational} {price : Rational} :
    returned.mapError ServiceError.provider = .ok price ↔ returned = .ok price := by
  cases returned with
  | error error => exact iff_of_false (fun h => nomatch h) fun h => nomatch h
  | ok found => rw [Except.mapError, Except.ok.injEq, Except.ok.injEq]

theorem returnedAndAsked_eq (I : Interface) (providers : List (Text × Source))
    (queryPayload : List UInt8) :
    returnedAndAsked answer I providers queryPayload =
      match findProvider I providers queryPayload with
      | .error error => (.error error, [])
      | .ok (.mock, query) =>
        ((mockGetPriceAtTimestamp (bytesToString query.currency1 32)
          (bytesToString query.currency2 32) (timestampMs query.timestamp)).mapError .provider, [])
      | .ok (.exchanges oracle, query) =>
        ((answer (exchangeQuery oracle query)).mapError .provider,
          [exchangeQuery oracle query]) := by
  rw [returnedAndAsked, processInterfaceQuery]
  cases findProvider I providers queryPayload with
  | error error => rfl
  | ok found =>
    obtain ⟨source, query⟩ := found
    cases source <;> rfl

/-- A query is answered by the provider it names.  Exchange providers are asked
for `exchangeQuery` if the query names them, once, and for nothing else. -/
theorem processInterfaceQuery_spec (I : Interface) (providers : List (Text × Source))
    (queryPayload : List UInt8) :
    (returnedAndAsked answer I providers queryPayload).2.length ≤ 1 ∧
    (∀ asked, asked ∈ (returnedAndAsked answer I providers queryPayload).2 ↔
      ∃ oracle query, findProvider I providers queryPayload = .ok (.exchanges oracle, query) ∧
        asked = exchangeQuery oracle query) ∧
    ∀ price, (returnedAndAsked answer I providers queryPayload).1 = .ok price ↔
      ∃ source query, findProvider I providers queryPayload = .ok (source, query) ∧
        source.Prices answer query price := by
  rw [returnedAndAsked_eq]
  cases findProvider I providers queryPayload with
  | error error => simp
  | ok found =>
    obtain ⟨source, query⟩ := found
    cases source with
    | mock => simp [mapError_eq_ok_iff, mockGetPriceAtTimestamp_eq_ok_iff, Source.Prices]
    | exchanges oracle => simp [mapError_eq_ok_iff, Source.Prices]

end Asked

/-! ## The candle of a time stamp -/

namespace DateAndTime

/-- The fields denote an instant. -/
structure Valid (dt : DateAndTime) : Prop where
  month_pos : 1 ≤ dt.month
  month_le : dt.month ≤ 12
  day_pos : 1 ≤ dt.day
  day_le : dt.day ≤ daysInMonth dt.year dt.month
  hour_lt : dt.hour < 24
  minute_lt : dt.minute < 60
  second_lt : dt.second < 60
  millisec_lt : dt.millisec < 1000
  microsec_lt : dt.microsecDuringMillisec < 1000

/-- The instant, in milliseconds since the start of 1970. -/
def unixMs (dt : DateAndTime) : Int :=
  unixSeconds dt.year dt.month dt.day dt.hour dt.minute dt.second * 1000 + dt.millisec

/-- The time stamp gets what it asks for.  A valid one is behind the start of
1970, or before it at a full minute.  Any other is all zero, or its first six
fields are not, and `timegm` takes it neither for the last second of 1969 nor
for the start of 1970. -/
def Answered (dt : DateAndTime) : Prop :=
  (dt.Valid → 0 < dt.unixMs ∨ dt.unixMs < 0 ∧ 60000 ∣ dt.unixMs) ∧
  (¬ dt.Valid → dt = zero ∨
    isCurrentPrice dt = false ∧ timegm dt.toTm ≠ -1 ∧ timegm dt.toTm * 1000 + dt.millisec ≠ 0)

/-- `timegm` needs no normalisation for a valid time stamp. -/
theorem Valid.timegm_eq {dt : DateAndTime} (h : dt.Valid) :
    timegm dt.toTm * 1000 + dt.millisec = dt.unixMs := by
  have hmonth : 1 ≤ dt.month := h.month_pos
  have hle : dt.month ≤ 12 := h.month_le
  have hyear : (1900 : Int) + (dt.year - 1900) + (dt.month - 1) / 12 = dt.year := by omega
  have hmon : (((dt.month : Int) - 1) % 12).toNat + 1 = dt.month := by omega
  show unixSeconds ((1900 : Int) + (dt.year - 1900) + (dt.month - 1) / 12)
    ((((dt.month : Int) - 1) % 12).toNat + 1) dt.day dt.hour dt.minute dt.second * 1000 +
    dt.millisec = _
  rw [hyear, hmon]
  rfl

theorem Valid.not_current {dt : DateAndTime} (h : dt.Valid) : isCurrentPrice dt = false := by
  have hmonth : dt.month ≠ 0 := by
    have hpos := h.month_pos
    omega
  simp [isCurrentPrice, hmonth]

theorem Valid.ne_zero {dt : DateAndTime} (h : dt.Valid) : dt ≠ zero := by
  intro hzero
  have hpos := h.month_pos
  rw [hzero] at hpos
  exact absurd hpos (by decide)

end DateAndTime

/-- Which time stamps are taken for zero. -/
theorem timestampMs_eq_zero_iff {dt : DateAndTime} :
    timestampMs dt = 0 ↔
      isCurrentPrice dt = true ∨ timegm dt.toTm = -1 ∨
        timegm dt.toTm * 1000 + dt.millisec = 0 := by
  rw [timestampMs, dateTimeToUnixMs]
  by_cases hcurrent : isCurrentPrice dt = true
  · simp [hcurrent]
  · by_cases hlast : timegm dt.toTm = -1
    · simp [hcurrent, hlast]
    · simp [hcurrent, hlast]

theorem timestampMs_of_ne_zero {dt : DateAndTime} (h : timestampMs dt ≠ 0) :
    timestampMs dt = timegm dt.toTm * 1000 + dt.millisec := by
  have hcases := mt timestampMs_eq_zero_iff.mpr h
  rw [not_or, not_or] at hcases
  rw [timestampMs, if_neg hcases.1, dateTimeToUnixMs]
  exact if_neg hcases.2.1

/-- The clock decides about a lookup exactly when the time stamp is zero. -/
theorem everyJob_now_iff {query : Query} {t : Int} (hmethod : query.method = .getPriceAtTimestamp t) :
    (∀ system, EveryJob system query fun _ now => now = none) ↔ t ≠ 0 := by
  constructor
  · intro h hzero
    have hnow := everyJob_iff.mp (h (.standing 0 (by decide))) 0
    rw [hmethod, hzero] at hnow
    cases hnow
  · intro hne system
    apply everyJob_iff.mpr
    intro k
    rw [hmethod, resolve, resolveTimestamp, if_neg hne]

/-- A time stamp that is not zero selects its own candle. -/
theorem everyJob_closedLast_iff {query : Query} {t : Int}
    (hmethod : query.method = .getPriceAtTimestamp t) (hne : t ≠ 0) :
    (∀ system, EveryJob system query fun candle _ => ClosedLast t candle) ↔
      0 ≤ t ∨ 60000 ∣ t := by
  rw [← closedLast_candleAt_iff]
  constructor
  · intro h
    have hcandle := everyJob_iff.mp (h (.standing 0 (by decide))) 0
    rwa [hmethod, candle_timestamp hne] at hcandle
  · intro h system
    apply everyJob_iff.mpr
    intro k
    rw [hmethod, candle_timestamp hne]
    exact h

/-- A valid time stamp gets its candle, and not the current price, in these
cases. -/
theorem DateAndTime.Valid.answered_iff {query : Query} {dt : DateAndTime}
    (hmethod : query.method = .getPriceAtTimestamp (timestampMs dt)) (h : dt.Valid) :
    ((∀ system, EveryJob system query fun candle _ => ClosedLast dt.unixMs candle) ∧
      ∀ system, EveryJob system query fun _ now => now = none) ↔
    0 < dt.unixMs ∨ dt.unixMs < 0 ∧ 60000 ∣ dt.unixMs := by
  have hms := h.millisec_lt
  have htime := h.timegm_eq
  have htimestamp : timestampMs dt ≠ 0 → timestampMs dt = dt.unixMs := by
    intro hne
    rw [timestampMs_of_ne_zero hne, htime]
  rw [everyJob_now_iff hmethod]
  constructor
  · rintro ⟨hcandle, hne⟩
    rw [htimestamp hne] at hmethod hne
    have hminute := (everyJob_closedLast_iff hmethod hne).mp hcandle
    omega
  · intro hcondition
    -- the last second of 1969 has no full minute
    have hne : timestampMs dt ≠ 0 := by
      intro hzero
      rcases timestampMs_eq_zero_iff.mp hzero with hcurrent | hlast | hstart
      · rw [h.not_current] at hcurrent
        cases hcurrent
      · rw [hlast] at htime
        omega
      · rw [htime] at hstart
        omega
    refine ⟨?_, hne⟩
    rw [htimestamp hne] at hmethod hne
    exact (everyJob_closedLast_iff hmethod hne).mpr (by omega)

/-- The candle of a time stamp.  The following two hold of a query to exchange
providers if and only if its time stamp is `Answered`: if the time stamp is
valid, every lookup is for the last candle that had closed at its instant,
whatever the wall clock says; and no lookup is decided by the wall clock, unless
the time stamp is all zero. -/
theorem historical_candle_iff (oracle : List Nat) (query : OracleQuery) :
    ((query.timestamp.Valid → ∀ system, EveryJob system (exchangeQuery oracle query)
        fun candle _ => ClosedLast query.timestamp.unixMs candle) ∧
      (query.timestamp ≠ .zero → ∀ system, EveryJob system (exchangeQuery oracle query)
        fun _ now => now = none)) ↔
    query.timestamp.Answered := by
  have hmethod : (exchangeQuery oracle query).method =
      .getPriceAtTimestamp (timestampMs query.timestamp) := rfl
  generalize exchangeQuery oracle query = asked at hmethod
  by_cases hvalid : query.timestamp.Valid
  · have hne := hvalid.ne_zero
    rw [DateAndTime.Answered, ← hvalid.answered_iff hmethod]
    simp only [hvalid, hne, ne_eq, not_false_eq_true, true_implies, not_true_eq_false,
      false_implies, and_true]
  · rw [DateAndTime.Answered, everyJob_now_iff hmethod, ne_eq (timestampMs query.timestamp),
      timestampMs_eq_zero_iff, not_or, not_or, Bool.not_eq_true]
    simp only [hvalid, false_implies, true_and, not_false_eq_true, true_implies, ne_eq]
    by_cases hzero : query.timestamp = .zero
    · simp [hzero]
    · simp [hzero]

/-- A query for Bitcoin at Binance. -/
def OracleQuery.sample (timestamp : DateAndTime) : OracleQuery where
  oracle := ascii "binance" ++ List.replicate 25 0
  timestamp
  currency1 := ascii "BTC" ++ List.replicate 29 0
  currency2 := ascii "USDT" ++ List.replicate 28 0

/-- An interface for queries of one kind. -/
def Interface.sample (timestamp : DateAndTime) : Interface where
  querySize := 104
  oracleQuery := fun _ => .sample timestamp

/-- The start of 1970, half a second before it, a time inside the minute before
the last of 1969, and a time stamp of one millisecond without a date. -/
def startOf1970 : DateAndTime := ⟨1970, 1, 1, 0, 0, 0, 0, 0, by decide⟩
def endOf1969 : DateAndTime := ⟨1969, 12, 31, 23, 59, 59, 500, 0, by decide⟩
def insideMinute : DateAndTime := ⟨1969, 12, 31, 23, 58, 30, 0, 0, by decide⟩
def noDate : DateAndTime := ⟨0, 0, 0, 0, 0, 0, 1, 0, by decide⟩

/-- Queries whose time stamps do not get what they ask for.  The first two and
the last are answered with the current price.  The third one asks for the candle
that closes 120 seconds before 1970 and gets the next one, which closes after its
instant. -/
theorem wrong_candles :
    (∀ timestamp, findProvider (.sample timestamp) providers (List.replicate 104 0) =
      .ok (.exchanges [0], .sample timestamp)) ∧
    (startOf1970.Valid ∧ ∃ system, ¬ EveryJob system (exchangeQuery [0] (.sample startOf1970))
      fun candle _ => ClosedLast startOf1970.unixMs candle) ∧
    (endOf1969.Valid ∧ ∃ system, ¬ EveryJob system (exchangeQuery [0] (.sample endOf1969))
      fun candle _ => ClosedLast endOf1969.unixMs candle) ∧
    (insideMinute.Valid ∧ insideMinute.unixMs = -90000 ∧
      ∀ system, EveryJob system (exchangeQuery [0] (.sample insideMinute))
        fun candle _ => candle = ⟨-120000, -60000⟩) ∧
    noDate ≠ .zero ∧ ∃ system, ¬ EveryJob system (exchangeQuery [0] (.sample noDate))
      fun _ now => now = none := by
  -- a clock far behind shows that the lookup depends on it
  have hclock : ∀ {timestamp : DateAndTime}, timestampMs timestamp = 0 →
      timestamp.unixMs < 60000000 →
      ¬ EveryJob (.standing 180000000 (by decide)) (exchangeQuery [0] (.sample timestamp))
        fun candle _ => ClosedLast timestamp.unixMs candle := by
    intro timestamp hzero hearly hjobs
    have hcandle := closedLast_iff.mp (everyJob_iff.mp hjobs 0)
    rw [show (exchangeQuery [0] (OracleQuery.sample timestamp)).method =
      .getPriceAtTimestamp (timestampMs timestamp) from rfl, hzero, candle_current _ (.inr rfl),
      candleAt_previousMinute, Candle.mk.injEq, show Int.tdiv 180000000 60000 = 3000 from rfl]
      at hcandle
    omega
  refine ⟨?_, ⟨?_, _, hclock (by decide) (by decide)⟩, ⟨?_, _, hclock (by decide) (by decide)⟩,
    ⟨?_, by decide, ?_⟩, by decide, .standing 0 (by decide), ?_⟩
  · intro timestamp
    rfl
  · constructor <;> decide
  · constructor <;> decide
  · constructor <;> decide
  · intro system
    apply everyJob_iff.mpr
    intro k
    have htimestamp : (exchangeQuery [0] (.sample insideMinute)).method =
        .getPriceAtTimestamp (-90000) := by decide
    rw [htimestamp, candle_timestamp (by decide)]
    decide
  · intro hjobs
    have hnow := everyJob_iff.mp hjobs 0
    cases hnow

end OracleMachine.Price.PriceService
