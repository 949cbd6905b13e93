import OracleMachine.Lib.Url
import OracleMachine.Price.Providers

/-!
# The URLs of kline requests

The currencies of a query go into the URL of the request as they are.
`buildKlineUrl` is `render` of a path and five parameters of which the first is
the formatted symbol, so what the receiver reads depends on the bytes of the
symbol: `kline_url_iff` says for which symbols it reads the five parameters.
-/

namespace OracleMachine.Price

open Lib.Decimal Lib.Text Lib.Url

/-! ## The parameters -/

/-- The parameters behind the symbol. -/
def otherParams (fromName toName : Text) (fromTime toTime limit : Int) : List (Text × Text) :=
  [(ascii "interval", ascii "1m"), (fromName, ofInt fromTime), (toName, ofInt toTime),
   (ascii "limit", ofInt limit)]

/-- A path, the name of the symbol and the query are a URL with five
parameters. -/
theorem render_klineQuery (path symbolName symbol fromName toName : Text)
    (fromTime toTime limit : Int) :
    path ++ 63 :: (symbolName ++ 61 ::
        klineQuery symbol (38 :: fromName ++ [61]) (38 :: toName ++ [61]) fromTime toTime limit) =
      render path ((symbolName, symbol) :: otherParams fromName toName fromTime toTime limit) := by
  have hinterval : ascii "&interval=1m" = 38 :: ascii "interval" ++ 61 :: ascii "1m" := by decide
  have hlimit : ascii "&limit=" = 38 :: ascii "limit" ++ [61] := by decide
  simp only [klineQuery, hinterval, hlimit, render, otherParams, field, List.map_cons, List.map_nil,
    List.intercalate_cons_cons, List.intercalate_singleton, List.append_assoc, List.cons_append,
    List.nil_append]

theorem buildKlineUrl_binanceLike (baseUrl : String) (paid : Bool) (symbol : Text)
    (startTimeMs endTimeMs limit : Int) :
    (binanceLike baseUrl paid).buildKlineUrl symbol startTimeMs endTimeMs limit =
      render (ascii baseUrl ++ ascii "/api/v3/klines")
        ((ascii "symbol", symbol) ::
          otherParams (ascii "startTime") (ascii "endTime") startTimeMs endTimeMs limit) := by
  have hpath : ascii "/api/v3/klines?symbol=" =
      ascii "/api/v3/klines" ++ 63 :: ascii "symbol" ++ [61] := by decide
  have hstart : ascii "&startTime=" = 38 :: ascii "startTime" ++ [61] := by decide
  have hend : ascii "&endTime=" = 38 :: ascii "endTime" ++ [61] := by decide
  rw [← render_klineQuery, binanceLike, hpath, hstart, hend]
  simp only [List.append_assoc, List.cons_append, List.nil_append]

theorem buildKlineUrl_gate (paid : Bool) (symbol : Text) (startTimeMs endTimeMs limit : Int) :
    (gate paid).buildKlineUrl symbol startTimeMs endTimeMs limit =
      render (ascii "https://api.gateio.ws" ++ ascii "/api/v4/spot/candlesticks")
        ((ascii "currency_pair", symbol) ::
          otherParams (ascii "from") (ascii "to") (startTimeMs.tdiv 1000) (endTimeMs.tdiv 1000)
            limit) := by
  have hpath : ascii "/api/v4/spot/candlesticks?currency_pair=" =
      ascii "/api/v4/spot/candlesticks" ++ 63 :: ascii "currency_pair" ++ [61] := by decide
  have hfrom : ascii "&from=" = 38 :: ascii "from" ++ [61] := by decide
  have hto : ascii "&to=" = 38 :: ascii "to" ++ [61] := by decide
  rw [← render_klineQuery, gate, hpath, hfrom, hto]
  simp only [List.append_assoc, List.cons_append, List.nil_append]

theorem clean_ofInt {name : Text} (hname : 61 ∉ name ∧ Plain name) (i : Int) :
    Clean (name, ofInt i) :=
  ⟨hname.1, hname.2, not_mem_ofInt (by decide) (by decide) i, not_mem_ofInt (by decide) (by decide) i⟩

theorem clean_otherParams {fromName toName : Text} (hfrom : 61 ∉ fromName ∧ Plain fromName)
    (hto : 61 ∉ toName ∧ Plain toName) (fromTime toTime limit : Int) :
    ∀ p ∈ otherParams fromName toName fromTime toTime limit, Clean p := by
  intro p hp
  simp only [otherParams, List.mem_cons, List.not_mem_nil, or_false] at hp
  rcases hp with rfl | rfl | rfl | rfl
  · exact ⟨by decide, by decide, by decide⟩
  · exact clean_ofInt hfrom fromTime
  · exact clean_ofInt hto toTime
  · exact clean_ofInt (by decide) limit

/-! ## What the receiver reads -/

/-- The receiver of a URL reads the path, the symbol under its name and the
other parameters, and no fragment. -/
def Reads (plus : Bool) (url path symbolName symbol : Text) (others : List (Text × Text)) : Prop :=
  ∃ value, split url = ⟨path, (symbolName, value) :: others, none⟩ ∧ decode plus value = symbol

/-- A symbol without `&` and `#`, without an escape sequence, and without a `+`
where it stands for a space. -/
structure Harmless (plus : Bool) (symbol : Text) : Prop where
  plain : Plain symbol
  escape : hasEscape symbol = false
  space : plus = true → 43 ∉ symbol

theorem reads_render_iff {plus : Bool} {path symbolName symbol : Text}
    (hpath : 63 ∉ path ∧ 35 ∉ path) (hname : 61 ∉ symbolName ∧ Plain symbolName)
    {others : List (Text × Text)} (hothers : ∀ p ∈ others, Clean p) :
    Reads plus (render path ((symbolName, symbol) :: others)) path symbolName symbol others ↔
      Harmless plus symbol := by
  constructor
  · intro h
    obtain ⟨value, hsplit, hdecode⟩ := h
    obtain ⟨rfl, hplain⟩ := (split_render_iff hpath hname hothers).mp hsplit
    obtain ⟨hescape, hspace⟩ := decode_eq_iff.mp hdecode
    exact ⟨hplain, hescape, hspace⟩
  · intro h
    exact ⟨symbol, (split_render_iff hpath hname hothers).mpr ⟨rfl, h.plain⟩,
      decode_eq_iff.mpr ⟨h.escape, h.space⟩⟩

/-- The candle of a request, as the exchanges with the Binance interface and as
Gate read it. -/
def binanceParams (candle : Candle) : List (Text × Text) :=
  otherParams (ascii "startTime") (ascii "endTime") candle.openMs candle.closeMs 1
def gateParams (candle : Candle) : List (Text × Text) :=
  otherParams (ascii "from") (ascii "to") (candle.openMs.tdiv 1000) (candle.closeMs.tdiv 1000) 1

/-- The request of two currencies.  The URL for a candle is read as the five
parameters that the provider intends if and only if the formatted symbol is
harmless. -/
theorem kline_url_iff (plus paid : Bool) (currency1 currency2 : Text) (candle : Candle) :
    (Reads plus
        ((binance paid).buildKlineUrl (Providers.symbolOf (binance paid) currency1 currency2)
          candle.openMs candle.closeMs 1)
        (ascii "https://api.binance.com" ++ ascii "/api/v3/klines") (ascii "symbol")
        (Providers.symbolOf (binance paid) currency1 currency2) (binanceParams candle) ↔
      Harmless plus (Providers.symbolOf (binance paid) currency1 currency2)) ∧
    (Reads plus
        ((mexc paid).buildKlineUrl (Providers.symbolOf (mexc paid) currency1 currency2)
          candle.openMs candle.closeMs 1)
        (ascii "https://api.mexc.com" ++ ascii "/api/v3/klines") (ascii "symbol")
        (Providers.symbolOf (mexc paid) currency1 currency2) (binanceParams candle) ↔
      Harmless plus (Providers.symbolOf (mexc paid) currency1 currency2)) ∧
    (Reads plus
        ((gate paid).buildKlineUrl (Providers.symbolOf (gate paid) currency1 currency2)
          candle.openMs candle.closeMs 1)
        (ascii "https://api.gateio.ws" ++ ascii "/api/v4/spot/candlesticks")
        (ascii "currency_pair") (Providers.symbolOf (gate paid) currency1 currency2)
        (gateParams candle) ↔
      Harmless plus (Providers.symbolOf (gate paid) currency1 currency2)) := by
  have hbinance : ∀ p ∈ binanceParams candle, Clean p :=
    clean_otherParams (by decide) (by decide) _ _ _
  have hgate : ∀ p ∈ gateParams candle, Clean p :=
    clean_otherParams (by decide) (by decide) _ _ _
  refine ⟨?_, ?_, ?_⟩
  · rw [binance, buildKlineUrl_binanceLike]
    exact reads_render_iff (by decide) (by decide) hbinance
  · rw [mexc, buildKlineUrl_binanceLike]
    exact reads_render_iff (by decide) (by decide) hbinance
  · rw [buildKlineUrl_gate]
    exact reads_render_iff (by decide) (by decide) hgate

/-- The request to Binance for a pair of currencies and the first candle of
1970. -/
def firstCandleUrl (currency1 currency2 : String) : Text :=
  (binance false).buildKlineUrl
    (Providers.symbolOf (binance false) (ascii currency1) (ascii currency2)) 0 60000 1

/-- What the receiver reads for three currencies.  The first one cuts off all
other parameters, the second one adds a parameter, and the third one is read as
another currency. -/
theorem currency_rewrites_request :
    (split (firstCandleUrl "btc" "usdt#") =
        ⟨ascii "https://api.binance.com/api/v3/klines", [(ascii "symbol", ascii "BTCUSDT")],
          some (ascii "&interval=1m&startTime=0&endTime=60000&limit=1")⟩ ∧
      ∀ plus path name symbol others,
        ¬ Reads plus (firstCandleUrl "btc" "usdt#") path name symbol others) ∧
    (split (firstCandleUrl "btc" "usdt&limit=9")).params =
      (ascii "symbol", ascii "BTCUSDT") :: (ascii "LIMIT", ascii "9") ::
        binanceParams ⟨0, 60000⟩ ∧
    (split (firstCandleUrl "%42tc" "usdt")).params =
      (ascii "symbol", ascii "%42TCUSDT") :: binanceParams ⟨0, 60000⟩ ∧
    decode false (ascii "%42TCUSDT") = ascii "BTCUSDT" := by
  have hcut : split (firstCandleUrl "btc" "usdt#") =
      ⟨ascii "https://api.binance.com/api/v3/klines", [(ascii "symbol", ascii "BTCUSDT")],
        some (ascii "&interval=1m&startTime=0&endTime=60000&limit=1")⟩ := by decide +kernel
  refine ⟨⟨hcut, ?_⟩, by decide +kernel, by decide +kernel, by decide +kernel⟩
  intro plus path name symbol others hreads
  obtain ⟨value, hsplit, -⟩ := hreads
  rw [hcut, Parts.mk.injEq] at hsplit
  cases hsplit.2.2

end OracleMachine.Price
