import OracleMachine.Lib.Checked
import OracleMachine.Lib.Text

/-!
# Exchanges and candles

What `ExchangePriceProvider` leaves to its three subclasses, and the candle it
selects for a time.

`Exchange` has the virtual members and the two parameters of the constructor.
`binance`, `mexc` and `gate` fill it in.  A `std::string` is a list of bytes.
The scanners for the responses look for characters from the left, so that a
position in a response is the rest of the response behind it.

Times are milliseconds.  `int64_t` division cuts off towards zero.  The providers
go back by a minute or two from the time they are given.  `HasRoom` says that
`int64_t` has room for that; the clock and the time stamps of queries carry it
with them, and then no time overflows (`inRange_candleAt`,
`hasRoom_previousMinute`).
-/

namespace OracleMachine.Price

open Lib.Checked Lib.Decimal Lib.Text

/-- The error flags that the price providers return. -/
inductive OracleError where
  | invalidArg
  | oracleUnavail
  deriving DecidableEq

/-- `::toupper` on every byte. -/
def toUpper (s : Text) : Text := s.map fun c => if 97 ≤ c && c ≤ 122 then c - 32 else c

/-! ## The candle of a time -/

/-- A 1-minute candle. -/
@[ext] structure Candle where
  openMs : Int
  closeMs : Int
  deriving DecidableEq

/-- The start of the minute of a time. -/
def minuteOf (ms : Int) : Int := ms.tdiv 60000 * 60000

/-- The previous finished minute, as the providers take it from the clock. -/
def previousMinute (nowMs : Int) : Int := minuteOf nowMs - 60000

/-- The candle that `getPriceAtTimestamp` looks up. -/
def candleAt (timestampMs : Int) : Candle where
  openMs := minuteOf timestampMs - 60000
  closeMs := minuteOf timestampMs

/-- `int64_t` holds the time, and also the time `back` milliseconds earlier. -/
def HasRoom (back ms : Int) : Prop := InRange (ms - back) ∧ InRange ms

instance (back ms : Int) : Decidable (HasRoom back ms) := inferInstanceAs (Decidable (_ ∧ _))

/-- The start of the minute lies between the time and zero. -/
theorem minuteOf_between (ms : Int) : min ms 0 ≤ minuteOf ms ∧ minuteOf ms ≤ max ms 0 := by
  rw [minuteOf, Int.tdiv_eq_ediv, show Int.sign 60000 = 1 from rfl]
  split <;> omega

theorem inRange_candleAt {ms : Int} (h : HasRoom 60000 ms) :
    InRange (candleAt ms).openMs ∧ InRange (candleAt ms).closeMs := by
  have hbetween := minuteOf_between ms
  simp only [HasRoom, InRange, candleAt] at h ⊢
  omega

theorem hasRoom_previousMinute {nowMs : Int} (h : HasRoom 120000 nowMs) :
    HasRoom 60000 (previousMinute nowMs) := by
  have hbetween := minuteOf_between nowMs
  simp only [HasRoom, InRange, previousMinute] at h ⊢
  omega

theorem minuteOf_mul (k : Int) : minuteOf (k * 60000) = k * 60000 := by
  rw [minuteOf, Int.mul_tdiv_cancel k (by decide)]

/-- The candle of the previous minute closes with that minute. -/
theorem candleAt_previousMinute (nowMs : Int) :
    candleAt (previousMinute nowMs) =
      ⟨nowMs.tdiv 60000 * 60000 - 120000, nowMs.tdiv 60000 * 60000 - 60000⟩ := by
  have hprevious : previousMinute nowMs = (nowMs.tdiv 60000 - 1) * 60000 := by
    unfold previousMinute minuteOf
    omega
  rw [candleAt, hprevious, minuteOf_mul, Candle.mk.injEq]
  omega

/-- Two readings of the clock select one candle when they fall into one
minute. -/
theorem candleAt_previousMinute_inj {m n : Int} :
    candleAt (previousMinute m) = candleAt (previousMinute n) ↔
      m.tdiv 60000 = n.tdiv 60000 := by
  rw [candleAt_previousMinute, candleAt_previousMinute, Candle.mk.injEq]
  omega

/-! ## The scanners -/

/-- What follows a number of commas. -/
def skipCommas : Nat → Text → Option Text
  | 0, s => some s
  | _ + 1, [] => none
  | n + 1, c :: cs => if c = 44 then skipCommas n cs else skipCommas (n + 1) cs

/-- The first quoted string. -/
def quoted (s : Text) : Option Text :=
  match (cut 34 s).2 with
  | none => none
  | some rest =>
    match cut 34 rest with
    | (content, some _) => some content
    | (_, none) => none

/-- `parseKlineResponse` with the close price behind a number of commas. -/
def parseKline (commas : Nat) (response : Text) : Except OracleError Text :=
  if response = [] ∨ response = ascii "[]" then .error .invalidArg
  else
    match (cut 91 response).2 with
    | none => .error .oracleUnavail
    | some outer =>
      match (cut 91 outer).2 with
      | none => .error .invalidArg
      | some inner =>
        match skipCommas commas inner with
        | none => .error .oracleUnavail
        | some rest =>
          match quoted rest with
          | none => .error .oracleUnavail
          | some closePriceString => .ok closePriceString

/-! ## The three exchanges -/

/-- What a subclass of `ExchangePriceProvider` brings. -/
structure Exchange where
  formatSymbol : Text → Text → Text
  buildKlineUrl : Text → Int → Int → Int → Text
  parseKlineResponse : Text → Except OracleError Text
  rateLimitDelayMs : Int
  cacheTtl : Int

/-- The query of a kline URL behind the name of the symbol parameter. -/
def klineQuery (symbol fromName toName : Text) (fromTime toTime limit : Int) : Text :=
  symbol ++ ascii "&interval=1m" ++ fromName ++ ofInt fromTime ++ toName ++ ofInt toTime ++
    ascii "&limit=" ++ ofInt limit

/-- The exchanges with the Binance interface. -/
def binanceLike (baseUrl : String) (paid : Bool) : Exchange where
  formatSymbol base quote := toUpper (base ++ quote)
  buildKlineUrl symbol startTimeMs endTimeMs limit :=
    ascii baseUrl ++ ascii "/api/v3/klines?symbol=" ++
      klineQuery symbol (ascii "&startTime=") (ascii "&endTime=") startTimeMs endTimeMs limit
  parseKlineResponse := parseKline 4
  rateLimitDelayMs := if paid then 100 else 500
  cacheTtl := 60

/-- `BinancePriceProvider`. -/
def binance (paid : Bool) : Exchange := binanceLike "https://api.binance.com" paid

/-- `MexcPriceProvider`. -/
def mexc (paid : Bool) : Exchange := binanceLike "https://api.mexc.com" paid

/-- `GatePriceProvider`, which counts seconds. -/
def gate (paid : Bool) : Exchange where
  formatSymbol base quote := toUpper (base ++ ascii "_" ++ quote)
  buildKlineUrl symbol startTimeMs endTimeMs limit :=
    ascii "https://api.gateio.ws" ++ ascii "/api/v4/spot/candlesticks?currency_pair=" ++
      klineQuery symbol (ascii "&from=") (ascii "&to=") (startTimeMs.tdiv 1000)
        (endTimeMs.tdiv 1000) limit
  parseKlineResponse := parseKline 2
  rateLimitDelayMs := if paid then 200 else 1000
  cacheTtl := 60

end OracleMachine.Price
