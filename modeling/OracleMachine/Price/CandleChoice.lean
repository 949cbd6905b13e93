import OracleMachine.Price.Providers

/-!
# Which candle a call looks up

An exchange provider settles on a candle in three ways: `getPrice` takes the
previous minute from the clock, `getPriceAtTimestamp` does the same for the time
stamp zero, and otherwise it takes the time stamp as it is.

`ClosedLast t` is the candle that a time asks for: of the 1-minute candles, the
last one that has closed at `t`.  `minuteOf` finds its close time for the times
that are not negative, and for no negative time inside a minute
(`closedLast_candleAt_iff`), since `int64_t` division cuts off towards zero.

`EveryJob` says what holds of all lookups of a query.  The result is
`latest_candle_iff`: asked for the price of now, a provider looks up the last
closed candle only if it is given the time.  If it takes the time from the
clock, it goes back by one minute twice.
-/

namespace OracleMachine.Price

open Lib.Checked Lib.Text

/-- The candle is the last one that has closed at `t`. -/
structure ClosedLast (t : Int) (candle : Candle) : Prop where
  dvd : 60000 ∣ candle.closeMs
  le : candle.closeMs ≤ t
  lt : t < candle.closeMs + 60000
  open_eq : candle.openMs = candle.closeMs - 60000

/-- It closes with the minute before the one of `t`. -/
theorem closedLast_iff {t : Int} {candle : Candle} :
    ClosedLast t candle ↔ candle = ⟨t / 60000 * 60000 - 60000, t / 60000 * 60000⟩ := by
  constructor
  · intro h
    have hdvd := h.dvd
    have hle := h.le
    have hlt := h.lt
    have hopen := h.open_eq
    apply Candle.ext
    · show candle.openMs = t / 60000 * 60000 - 60000
      omega
    · show candle.closeMs = t / 60000 * 60000
      omega
  · intro h
    subst h
    refine ⟨Int.dvd_mul_left _ _, ?_, ?_, rfl⟩
    · show t / 60000 * 60000 ≤ t
      omega
    · show t < t / 60000 * 60000 + 60000
      omega

/-- Cutting off towards zero gives the start of the minute unless a time before
1970 lies inside a minute. -/
theorem minuteOf_eq_iff {t : Int} : minuteOf t = t / 60000 * 60000 ↔ 0 ≤ t ∨ 60000 ∣ t := by
  rw [minuteOf, Int.tdiv_eq_ediv]
  by_cases h : 0 ≤ t ∨ 60000 ∣ t
  · rw [if_pos h, Int.add_zero]
    exact iff_of_true rfl h
  · rw [if_neg h, show Int.sign 60000 = 1 from rfl]
    refine iff_of_false ?_ h
    omega

theorem closedLast_candleAt_iff {t : Int} :
    ClosedLast t (candleAt t) ↔ 0 ≤ t ∨ 60000 ∣ t := by
  rw [closedLast_iff, candleAt, Candle.mk.injEq, ← minuteOf_eq_iff]
  omega

namespace Providers

/-! ## The lookups of a query -/

/-- What holds of the candle of every lookup for a query, and of the reading of
the wall clock that has decided about it. -/
def EveryJob (system : SystemClock) (query : Query) (P : Candle → Option Int → Prop) : Prop :=
  ∀ (exchange : Nat → Exchange) (stod : Lib.Decimal.Text → Option Int64)
    (steady : Lib.TimedMap.Clock) (s s' : State) (i : Nat) (call : Call),
    s.calls[i]? = some call → call.query = query →
    step exchange stod steady system s (.ask i) = some s' →
    ∃ call' job, s'.calls[i]? = some call' ∧ call'.phase = .checking job ∧ P job.candle job.now

/-- A call looks up the candle that `resolve` gives at the current reading of
the clock. -/
theorem everyJob_iff {system : SystemClock} {query : Query} {P : Candle → Option Int → Prop} :
    EveryJob system query P ↔
      ∀ k, P (candleAt (resolve system k query.method).1) (resolve system k query.method).2.1 := by
  constructor
  · intro h k
    -- a call that is about to ask at reading `k`
    have hjob := h (fun _ => binance false) (fun _ => none) steadySeconds
      { providers := fun _ => Provider.new steadySeconds
        calls := [{ query, todo := [0], phase := .ready, quotes := [] }]
        steadyReadings := 1
        systemReadings := k } _ 0 _ rfl rfl rfl
    obtain ⟨call', job, hcall, hphase, hP⟩ := hjob
    obtain rfl := Option.some.inj hcall
    obtain rfl := Phase.checking.inj hphase
    exact hP
  · intro h exchange stod steady s s' i call hcall hquery hstep
    rw [step, hcall, Option.bind_some, askStep] at hstep
    split at hstep
    · next p todo hphase htodo =>
      obtain rfl := Option.some.inj hstep
      have hlt : i < s.calls.length := (List.getElem?_eq_some_iff.mp hcall).1
      rw [hquery]
      exact ⟨_, _, List.getElem?_set_self hlt, rfl, h s.systemReadings⟩
    · cases hstep

/-- No lookup is for a candle whose times overflow. -/
theorem everyJob_inRange (system : SystemClock) (query : Query) :
    EveryJob system query fun candle _ => InRange candle.openMs ∧ InRange candle.closeMs :=
  everyJob_iff.mpr fun k => inRange_candle_resolve system k query.hasRoom

/-! ## The price of now -/

/-- A wall clock that stands still. -/
def SystemClock.standing (nowMs : Int) (hasRoom : HasRoom 120000 nowMs) : SystemClock where
  read _ := nowMs
  hasRoom _ := hasRoom

/-- Both ways to ask for the current price end at the previous minute. -/
theorem candle_current {nowMs : Int} (hroom : HasRoom 120000 nowMs) {method : Method}
    (hmethod : method = .getPrice ∨ method = .getPriceAtTimestamp 0) (k : Nat) :
    candleAt (resolve (.standing nowMs hroom) k method).1 = candleAt (previousMinute nowMs) := by
  rcases hmethod with rfl | rfl
  · rw [resolve, resolveTimestamp]
    split <;> rfl
  · rfl

theorem candle_timestamp {timestampMs : Int} (hne : timestampMs ≠ 0) (system : SystemClock)
    (k : Nat) :
    candleAt (resolve system k (.getPriceAtTimestamp timestampMs)).1 = candleAt timestampMs := by
  rw [resolve, resolveTimestamp, if_neg hne]

/-- The candle of the previous minute is the last one that had closed a minute
ago. -/
theorem closedLast_previousMinute {nowMs : Int} (hnow : 180000 ≤ nowMs) :
    ClosedLast (nowMs - 60000) (candleAt (previousMinute nowMs)) := by
  have hminute : previousMinute nowMs = nowMs / 60000 * 60000 - 60000 := by
    rw [previousMinute, minuteOf_eq_iff.mpr (.inl (by omega))]
  rw [closedLast_iff, candleAt, hminute, minuteOf_eq_iff.mpr (.inl (by omega)), Candle.mk.injEq]
  omega

/-- The candle of now.  While the wall clock stands at `nowMs`, a query by
`getPrice`, by the time stamp zero or by the time stamp `nowMs` looks up the
candle that has closed last if and only if it is the one by the time stamp
`nowMs`.  The other two agree with each other: they look up the candle that had
closed last a minute ago. -/
theorem latest_candle_iff {nowMs : Int} (hroom : HasRoom 120000 nowMs) (hnow : 180000 ≤ nowMs)
    (query : Query)
    (hmethod : query.method = .getPrice ∨ query.method = .getPriceAtTimestamp 0 ∨
      query.method = .getPriceAtTimestamp nowMs) :
    (EveryJob (.standing nowMs hroom) query (fun candle _ => ClosedLast nowMs candle) ↔
      query.method = .getPriceAtTimestamp nowMs) ∧
    (query.method ≠ .getPriceAtTimestamp nowMs →
      EveryJob (.standing nowMs hroom) query
        (fun candle _ => ClosedLast (nowMs - 60000) candle)) := by
  have hcurrent : query.method ≠ .getPriceAtTimestamp nowMs → ∀ k,
      ClosedLast (nowMs - 60000) (candleAt (resolve (.standing nowMs hroom) k query.method).1) := by
    intro hne k
    have hcase : query.method = .getPrice ∨ query.method = .getPriceAtTimestamp 0 := by
      rcases hmethod with h | h | h
      · exact .inl h
      · exact .inr h
      · exact absurd h hne
    rw [candle_current hroom hcase]
    exact closedLast_previousMinute hnow
  refine ⟨⟨?_, ?_⟩, ?_⟩
  · intro hlatest
    by_contra hne
    -- one candle cannot be the last one for two times a minute apart
    have hnowCandle := closedLast_iff.mp (everyJob_iff.mp hlatest 0)
    have hearlier := closedLast_iff.mp (hcurrent hne 0)
    rw [hnowCandle, Candle.mk.injEq] at hearlier
    omega
  · intro hgiven
    apply everyJob_iff.mpr
    intro k
    rw [hgiven, candle_timestamp (by omega)]
    exact closedLast_candleAt_iff.mpr (.inl (by omega))
  · intro hne
    exact everyJob_iff.mpr (hcurrent hne)

/-- A query for the current price of a pair at one provider. -/
def currentQuery (method : Method) (hasRoom : method.HasRoom) : Query where
  oracle := [0]
  method
  hasRoom
  currency1 := ascii "BTC"
  currency2 := ascii "USDT"

/-- Three minutes past the start of 1970. -/
def threeMinutes : SystemClock := .standing 180000 (by decide)

/-- The condition at this time. -/
theorem latest_candle_iff_three_minutes :
    EveryJob threeMinutes (currentQuery (.getPriceAtTimestamp 180000) (by decide))
      (fun candle _ => ClosedLast 180000 candle) ∧
    EveryJob threeMinutes (currentQuery .getPrice trivial)
      (fun candle _ => ClosedLast 120000 candle) :=
  ⟨(latest_candle_iff (by decide) (by decide)
      (currentQuery (.getPriceAtTimestamp 180000) (by decide)) (.inr (.inr rfl))).1.mpr rfl,
    (latest_candle_iff (by decide) (by decide) (currentQuery .getPrice trivial) (.inl rfl)).2
      (by decide)⟩

/-- At this time the current price is that of the candle from one minute to two
minutes, while the candle from two minutes to three has closed. -/
theorem current_price_is_stale :
    ¬ EveryJob threeMinutes (currentQuery .getPrice trivial)
      (fun candle _ => ClosedLast 180000 candle) ∧
    ¬ EveryJob threeMinutes (currentQuery (.getPriceAtTimestamp 0) (by decide))
      (fun candle _ => ClosedLast 180000 candle) ∧
    candleAt (resolve threeMinutes 0 .getPrice).1 = ⟨60000, 120000⟩ ∧
    candleAt (resolve threeMinutes 0 (.getPriceAtTimestamp 0)).1 = ⟨60000, 120000⟩ ∧
    ClosedLast 180000 ⟨120000, 180000⟩ := by
  have hstale : ¬ ClosedLast 180000 ⟨60000, 120000⟩ := by
    rw [closedLast_iff]
    decide
  refine ⟨?_, ?_, by decide, by decide, closedLast_iff.mpr (by decide)⟩
  · intro h
    exact hstale (everyJob_iff.mp h 0)
  · intro h
    exact hstale (everyJob_iff.mp h 0)

end Providers
end OracleMachine.Price
