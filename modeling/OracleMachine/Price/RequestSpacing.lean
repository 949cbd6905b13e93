import OracleMachine.Price.CacheTransparency
import OracleMachine.Price.PriceService

/-!
# The spacing of requests to an exchange

The rate limiter keeps the requests of one provider object apart: it remembers
the time of the last request, and sleeps under its mutex until the delay of the
exchange has passed.  The service has several provider objects for one exchange.
`binance`, `binance_mexc` and `binance_gate` each have their own
`BinancePriceProvider`, and none of them knows of the requests of the others.

A run is followed with the list of the requests that the limiters have let go
(`Release`).

* `LimiterTurn` says once what a step does with the limiters.
* `Spacing` is the invariant of every run: who sleeps holds the mutex of the
  limiter, and wakes up when the delay has passed since the last request.  It
  keeps the requests of one provider object apart.
* `requests_spaced` is what follows for an exchange, when all queries reach it
  through one provider object.  `requests_together` is a run in which they do
  not.
-/

namespace OracleMachine.Price.Providers

open Lib.Decimal Lib.Entries Lib.Text Lib.TimedMap Lib.Transition

/-! ## Runs with their requests -/

/-- A request that a rate limiter has let go: the provider, and the reading of
the steady clock that the limiter keeps for the next one. -/
structure Release where
  provider : Nat
  time : Nat
  deriving DecidableEq

/-- What a call in the rate limiter waits for. -/
def Call.sleep (call : Call) : Option (Job × Int) :=
  match call.phase with
  | .sleeping job wakeAt => some (job, wakeAt)
  | _ => none

/-- What call `i` waits for, if it is in a rate limiter. -/
def State.sleeper (s : State) (i : Nat) : Option (Job × Int) := s.calls[i]?.bind Call.sleep

/-- The query that a step brings. -/
def requested : Label → List Query
  | .request query => [query]
  | _ => []

section Machine

variable (exchange : Nat → Exchange) (stod : Text → Option Int64)
variable (steady : Clock) (system : SystemClock)

/-- The request that a step lets go. -/
def released (s : State) : Label → List Release
  | .release i =>
    match s.sleeper i with
    | some (job, _) => [{ provider := job.provider, time := steady.read s.steadyReadings }]
    | none => []
  | _ => []

/-- A step, with the requests so far. -/
def logStep (st : State × List Release) (label : Label) : Option (State × List Release) :=
  (step exchange stod steady system st.1 label).map fun s' =>
    (s', st.2 ++ released steady st.1 label)

/-! ## What a step does with the limiters -/

/-- The limiters are left alone, a call enters one, or a call leaves one. -/
inductive LimiterTurn (s s' : State) : List Release → Prop where
  | quiet
      (hlast : ∀ p, (s'.providers p).lastRequestTime = (s.providers p).lastRequestTime)
      (hlimiter : ∀ p, (s'.providers p).limiter = (s.providers p).limiter)
      (hsleeper : ∀ j, s'.sleeper j = s.sleeper j) : LimiterTurn s s' []
  | entered (i : Nat) (job : Job) (hfree : (s.providers job.provider).limiter = none)
      (hlast : ∀ p, (s'.providers p).lastRequestTime = (s.providers p).lastRequestTime)
      (hlimiter : ∀ p, (s'.providers p).limiter =
        if p = job.provider then some i else (s.providers p).limiter)
      (hsleeper : ∀ j, s'.sleeper j =
        if j = i then some (job, wakeTime (exchange job.provider).rateLimitDelayMs
          (s.providers job.provider).lastRequestTime (steady.read s.steadyReadings))
        else s.sleeper j) : LimiterTurn s s' []
  | left (i : Nat) (job : Job) (wakeAt : Int) (hwas : s.sleeper i = some (job, wakeAt))
      (hawake : wakeAt ≤ steady.read s.steadyReadings)
      (hlast : ∀ p, (s'.providers p).lastRequestTime =
        if p = job.provider then (steady.read s.steadyReadings : Int)
        else (s.providers p).lastRequestTime)
      (hlimiter : ∀ p, (s'.providers p).limiter =
        if p = job.provider then none else (s.providers p).limiter)
      (hsleeper : ∀ j, s'.sleeper j = if j = i then none else s.sleeper j) :
      LimiterTurn s s' [{ provider := job.provider, time := steady.read s.steadyReadings }]

end Machine

variable {exchange : Nat → Exchange} {stod : Text → Option Int64}
variable {steady : Clock} {system : SystemClock}

/-- A field of the providers after one of them has changed. -/
theorem field_update_apply {β : Type} (field : Provider → β) (providers : Nat → Provider) (p : Nat)
    (provider : Provider) (q : Nat) :
    field (Function.update providers p provider q) =
      if q = p then field provider else field (providers q) := by
  rw [Function.update_apply, apply_ite field]

/-- The sleepers after a call has changed. -/
theorem sleeper_set {s s' : State} {i : Nat} {call call' : Call} (hcall : s.calls[i]? = some call)
    (hcalls : s'.calls = s.calls.set i call') (j : Nat) :
    s'.sleeper j = if j = i then call'.sleep else s.sleeper j := by
  rw [State.sleeper, hcalls]
  exact bind_set_apply hcall Call.sleep j

/-- A call that is in no limiter, before and after, changes no sleeper. -/
theorem sleeper_set_of_awake {s s' : State} {i : Nat} {call call' : Call}
    (hcall : s.calls[i]? = some call) (hcalls : s'.calls = s.calls.set i call')
    (hbefore : call.sleep = none) (hafter : call'.sleep = none) (j : Nat) :
    s'.sleeper j = s.sleeper j := by
  rw [State.sleeper, hcalls]
  exact bind_set hcall (hafter.trans hbefore.symm) j

/-- A call that has moved on has the query it had. -/
theorem map_query_set {calls : List Call} {i : Nat} {call call' : Call}
    (hcall : calls[i]? = some call) (hquery : call'.query = call.query) :
    (calls.set i call').map Call.query = calls.map Call.query ++ [] := by
  obtain ⟨hlt, rfl⟩ := List.getElem?_eq_some_iff.mp hcall
  rw [List.append_nil, List.map_set, hquery, ← List.getElem_map Call.query, List.set_getElem_self]
  rwa [List.length_map]

theorem sleep_got (call : Call) (quote : Quote) : (call.got quote).sleep = none := by
  unfold Call.got Call.sleep
  dsimp only
  cases call.todo with
  | nil => cases combine (call.quotes ++ [quote]) <;> rfl
  | cons p todo => rfl

theorem sleep_afterFetch (call : Call) (job : Job) (response : Option Text) :
    ({ call with phase := afterFetch exchange stod job response } : Call).sleep = none := by
  unfold Call.sleep afterFetch
  dsimp only
  cases response with
  | none => rfl
  | some response =>
    dsimp only
    split
    · next job' wakeAt hphase =>
      split at hphase
      · cases hphase
      · split at hphase <;> cases hphase
    · rfl

/-- A step brings its query and leaves the queries of the calls as they are, and
it is a turn of the limiters. -/
theorem limiterTurn_of_step {s s' : State} {label : Label}
    (hstep : step exchange stod steady system s label = some s') :
    s'.calls.map Call.query = s.calls.map Call.query ++ requested label ∧
      LimiterTurn exchange steady s s' (released steady s label) := by
  cases move_of_step hstep with
  | request query =>
    refine ⟨List.map_append, .quiet (fun _ => rfl) (fun _ => rfl) fun j => ?_⟩
    -- the new call is the only new entry, and it does not sleep
    apply Option.ext
    intro pair
    rw [State.sleeper, bind_concat, State.sleeper]
    refine or_iff_left ?_
    rintro ⟨-, hsleep⟩
    cases hsleep
  | ask hcall hphase =>
    refine ⟨map_query_set hcall rfl,
      .quiet (fun _ => rfl) (fun _ => rfl) (sleeper_set_of_awake hcall rfl ?_ rfl)⟩
    rw [Call.sleep, hphase]
  | @hit i call job entry hcall hphase =>
    refine ⟨map_query_set hcall rfl, .quiet (fun _ => rfl) (fun _ => rfl)
      (sleeper_set_of_awake hcall rfl ?_ (sleep_got call _))⟩
    rw [Call.sleep, hphase]
  | stale hcall hphase =>
    refine ⟨map_query_set hcall rfl,
      .quiet (fun _ => rfl) (fun _ => rfl) (sleeper_set_of_awake hcall rfl ?_ rfl)⟩
    rw [Call.sleep, hphase]
  | miss hcall hphase =>
    refine ⟨map_query_set hcall rfl,
      .quiet (fun _ => rfl) (fun _ => rfl) (sleeper_set_of_awake hcall rfl ?_ rfl)⟩
    rw [Call.sleep, hphase]
  | @limit i call job hcall hphase hfree =>
    refine ⟨map_query_set hcall rfl, .entered i job hfree
      (field_update Provider.lastRequestTime rfl)
      (field_update_apply Provider.limiter _ _ _) ?_⟩
    intro j
    rw [sleeper_set hcall rfl]
    rfl
  | @release i call job wakeAt hcall hphase hawake =>
    have hwas : s.sleeper i = some (job, wakeAt) := by
      rw [State.sleeper, hcall, Option.bind_some, Call.sleep, hphase]
    have hreleased : released steady s (.release i) =
        [{ provider := job.provider, time := steady.read s.steadyReadings }] := by
      simp only [released, hwas]
    rw [hreleased]
    refine ⟨map_query_set hcall rfl, .left i job wakeAt hwas hawake
      (field_update_apply Provider.lastRequestTime _ _ _)
      (field_update_apply Provider.limiter _ _ _) ?_⟩
    intro j
    rw [sleeper_set hcall rfl]
    rfl
  | @fetch i call job response hcall hphase =>
    refine ⟨map_query_set hcall rfl, .quiet (fun _ => rfl) (fun _ => rfl)
      (sleeper_set_of_awake hcall rfl ?_ (sleep_afterFetch call job response))⟩
    rw [Call.sleep, hphase]
  | @update i call job price origin hcall hphase =>
    refine ⟨map_query_set hcall rfl, .quiet (field_update Provider.lastRequestTime rfl)
      (field_update Provider.limiter rfl)
      (sleeper_set_of_awake hcall rfl ?_ (sleep_got call _))⟩
    rw [Call.sleep, hphase]
  | tick => exact ⟨(List.append_nil _).symm, .quiet (fun _ => rfl) (fun _ => rfl) fun _ => rfl⟩

/-! ## One provider object -/

/-- The limiter lets nobody go before the delay has passed.  Whole milliseconds
are counted, so that the sleep is rather too long. -/
theorem le_wakeTime {rateLimitDelayMs lastRequestTime now : Int} (h : lastRequestTime ≤ now) :
    lastRequestTime + rateLimitDelayMs * 10 ^ 6 ≤ wakeTime rateLimitDelayMs lastRequestTime now := by
  have hwhole : (now - lastRequestTime).tdiv 1000000 = (now - lastRequestTime) / 1000000 :=
    Int.tdiv_eq_ediv_of_nonneg (by omega)
  rw [wakeTime, hwhole]
  split <;> omega

section Invariant

variable (exchange : Nat → Exchange) (steady : Clock)

/-- The invariant of the limiters.  A call that sleeps holds the mutex, and the
delay will have passed when it wakes up.  All requests of a provider are apart,
and none is later than the time that the provider remembers. -/
structure Spacing (s : State) (log : List Release) : Prop where
  past : ∀ p, (s.providers p).lastRequestTime ≤ steady.read s.steadyReadings
  holder : ∀ i job wakeAt, s.sleeper i = some (job, wakeAt) →
    (s.providers job.provider).limiter = some i ∧
    (s.providers job.provider).lastRequestTime +
      (exchange job.provider).rateLimitDelayMs * 10 ^ 6 ≤ wakeAt
  logged : ∀ release ∈ log, (release.time : Int) ≤
    (s.providers release.provider).lastRequestTime
  spaced : log.Pairwise fun a b => a.provider = b.provider →
    (a.time : Int) + (exchange a.provider).rateLimitDelayMs * 10 ^ 6 ≤ b.time

end Invariant

theorem spacing_init : Spacing exchange steady (init steady) [] where
  past := by
    intro p
    have hmono := steady.mono (Nat.zero_le 1)
    show (steady.read 0 : Int) - 10 * 10 ^ 9 ≤ steady.read 1
    omega
  holder := by
    intro i job wakeAt hsleeper
    cases hsleeper
  logged := fun _ hmem => absurd hmem List.not_mem_nil
  spaced := .nil

/-- A sleeper that does not hold the mutex of a limiter is in another one. -/
theorem Spacing.provider_ne {s : State} {log : List Release} (h : Spacing exchange steady s log)
    {j p : Nat} {job : Job} {wakeAt : Int} (hsleeper : s.sleeper j = some (job, wakeAt))
    (hother : (s.providers p).limiter ≠ some j) : job.provider ≠ p := by
  rintro rfl
  exact hother (h.holder j job wakeAt hsleeper).1

/-- Nobody leaves a limiter: the last requests stay, and the sleepers have to be
looked at. -/
theorem Spacing.frame {s s' : State} {log : List Release} (h : Spacing exchange steady s log)
    (hlater : steady.read s.steadyReadings ≤ steady.read s'.steadyReadings)
    (hlast : ∀ p, (s'.providers p).lastRequestTime = (s.providers p).lastRequestTime)
    (hholder : ∀ i job wakeAt, s'.sleeper i = some (job, wakeAt) →
      (s'.providers job.provider).limiter = some i ∧
      (s.providers job.provider).lastRequestTime +
        (exchange job.provider).rateLimitDelayMs * 10 ^ 6 ≤ wakeAt) :
    Spacing exchange steady s' log where
  past := by
    intro p
    rw [hlast]
    exact (h.past p).trans (Int.ofNat_le.mpr hlater)
  holder := by
    intro i job wakeAt hsleeper
    rw [hlast]
    exact hholder i job wakeAt hsleeper
  logged := by
    intro release hmem
    rw [hlast]
    exact h.logged release hmem
  spaced := h.spaced

/-- Call `i` leaves the limiter of its provider after the delay. -/
theorem Spacing.leave {s s' : State} {log : List Release} (h : Spacing exchange steady s log)
    (hlater : steady.read s.steadyReadings ≤ steady.read s'.steadyReadings) {i : Nat} {job : Job}
    {wakeAt : Int} (hwas : s.sleeper i = some (job, wakeAt))
    (hawake : wakeAt ≤ steady.read s.steadyReadings)
    (hlast : ∀ p, (s'.providers p).lastRequestTime =
      if p = job.provider then (steady.read s.steadyReadings : Int)
      else (s.providers p).lastRequestTime)
    (hlimiter : ∀ p, (s'.providers p).limiter =
      if p = job.provider then none else (s.providers p).limiter)
    (hsleeper : ∀ j, s'.sleeper j = if j = i then none else s.sleeper j) :
    Spacing exchange steady s'
      (log ++ [{ provider := job.provider, time := steady.read s.steadyReadings }]) := by
  obtain ⟨hheld, hdelay⟩ := h.holder i job wakeAt hwas
  refine ⟨?_, ?_, ?_, ?_⟩
  · intro p
    rw [hlast]
    split
    · exact Int.ofNat_le.mpr hlater
    · exact (h.past p).trans (Int.ofNat_le.mpr hlater)
  · intro j job' wakeAt' hsleeps
    rw [hsleeper] at hsleeps
    by_cases hj : j = i
    · rw [if_pos hj] at hsleeps
      cases hsleeps
    · rw [if_neg hj] at hsleeps
      have hother : job'.provider ≠ job.provider := by
        refine h.provider_ne hsleeps ?_
        rw [hheld]
        exact fun hsame => hj (Option.some.inj hsame).symm
      rw [hlimiter, hlast, if_neg hother, if_neg hother]
      exact h.holder j job' wakeAt' hsleeps
  · intro release hmem
    rw [hlast]
    rcases List.mem_append.mp hmem with hold | hnew
    · have hremembered := h.logged release hold
      split
      · exact hremembered.trans (h.past release.provider)
      · exact hremembered
    · rw [List.mem_singleton.mp hnew, if_pos rfl]
  · rw [List.pairwise_append]
    refine ⟨h.spaced, List.pairwise_singleton _ _, fun a ha b hb hsame => ?_⟩
    obtain rfl := List.mem_singleton.mp hb
    have hremembered := h.logged a ha
    rw [hsame] at hremembered ⊢
    dsimp only at hremembered ⊢
    omega

/-- One step keeps the requests of every provider apart. -/
theorem Spacing.turn {s s' : State} {log new : List Release} (h : Spacing exchange steady s log)
    (hreadings : s.steadyReadings ≤ s'.steadyReadings)
    (hturn : LimiterTurn exchange steady s s' new) : Spacing exchange steady s' (log ++ new) := by
  have hlater : steady.read s.steadyReadings ≤ steady.read s'.steadyReadings :=
    steady.mono hreadings
  cases hturn with
  | quiet hlast hlimiter hsleeper =>
    rw [List.append_nil]
    refine h.frame hlater hlast fun i job wakeAt hsleeps => ?_
    rw [hsleeper] at hsleeps
    rw [hlimiter]
    exact h.holder i job wakeAt hsleeps
  | entered i job hfree hlast hlimiter hsleeper =>
    rw [List.append_nil]
    refine h.frame hlater hlast fun j job' wakeAt hsleeps => ?_
    rw [hsleeper] at hsleeps
    rw [hlimiter]
    by_cases hj : j = i
    · rw [if_pos hj, Option.some.injEq, Prod.mk.injEq] at hsleeps
      obtain ⟨rfl, rfl⟩ := hsleeps
      rw [if_pos rfl, hj]
      exact ⟨rfl, le_wakeTime (h.past job.provider)⟩
    · -- nobody else was in the limiter that was entered
      rw [if_neg hj] at hsleeps
      rw [if_neg (h.provider_ne hsleeps (by simp [hfree]))]
      exact h.holder j job' wakeAt hsleeps
  | left i job wakeAt hwas hawake hlast hlimiter hsleeper =>
    exact h.leave hlater hwas hawake hlast hlimiter hsleeper

theorem spacing_run {labels : List Label} {st : State × List Release}
    {G : State × List Release → Label → Prop}
    (hrun : Runs (logStep exchange stod steady system) G (init steady, []) labels st) :
    Spacing exchange steady st.1 st.2 := by
  refine hrun.invariant (I := fun st => Spacing exchange steady st.1 st.2) ?_ spacing_init
  rintro ⟨s, log⟩ label st' h - hstep
  obtain ⟨s', hs', rfl⟩ := Option.map_eq_some_iff.mp hstep
  exact h.turn (step_cases hs').1 (limiterTurn_of_step hs').2

/-! ## One exchange -/

/-- The exchanges. -/
inductive Venue where
  | binance
  | mexc
  | gate
  deriving DecidableEq

/-- How an exchange is asked, with an API key or without. -/
def Venue.api (binancePaid mexcPaid gatePaid : Bool) : Venue → Exchange
  | .binance => Price.binance binancePaid
  | .mexc => Price.mexc mexcPaid
  | .gate => Price.gate gatePaid

/-- The exchange that a provider object of the service asks. -/
def venue : Nat → Venue
  | 0 | 3 | 5 => .binance
  | 1 | 4 | 7 => .mexc
  | _ => .gate

theorem registered_eq (binancePaid mexcPaid gatePaid : Bool) (p : Nat) :
    PriceService.registered binancePaid mexcPaid gatePaid p =
      (venue p).api binancePaid mexcPaid gatePaid := by
  rcases p with _ | _ | _ | _ | _ | _ | _ | _ | p <;> rfl

/-- Any two requests to one exchange are its delay apart. -/
def Spaced (binancePaid mexcPaid gatePaid : Bool) (log : List Release) : Prop :=
  log.Pairwise fun a b => venue a.provider = venue b.provider →
    (a.time : Int) + ((venue a.provider).api binancePaid mexcPaid gatePaid).rateLimitDelayMs *
      10 ^ 6 ≤ b.time

instance (binancePaid mexcPaid gatePaid : Bool) (log : List Release) :
    Decidable (Spaced binancePaid mexcPaid gatePaid log) :=
  inferInstanceAs (Decidable (log.Pairwise _))

/-- Two oracles reach no exchange through different provider objects. -/
def SameObjects (oracle oracle' : List Nat) : Prop :=
  ∀ p ∈ oracle, ∀ q ∈ oracle', venue p = venue q → p = q

instance (oracle oracle' : List Nat) : Decidable (SameObjects oracle oracle') :=
  inferInstanceAs (Decidable (∀ p ∈ oracle, ∀ q ∈ oracle', venue p = venue q → p = q))

/-- A new query reaches every exchange through the provider object through which
the queries so far have reached it. -/
def OneObject (st : State × List Release) (label : Label) : Prop :=
  ∀ query ∈ requested label, SameObjects query.oracle query.oracle ∧
    ∀ call ∈ st.1.calls, SameObjects call.query.oracle query.oracle

instance (st : State × List Release) (label : Label) : Decidable (OneObject st label) :=
  inferInstanceAs (Decidable (∀ query ∈ requested label, SameObjects query.oracle query.oracle ∧
    ∀ call ∈ st.1.calls, SameObjects call.query.oracle query.oracle))

/-- Every request was made for a query, by one of the providers of its oracle. -/
def Named (s : State) (log : List Release) : Prop :=
  ∀ release ∈ log, ∃ query ∈ s.calls.map Call.query, release.provider ∈ query.oracle

/-- The provider of a call that sleeps is one of its oracle. -/
theorem mem_oracle_of_sleeper {s : State} (h : Inv exchange stod s) {i : Nat} {job : Job}
    {wakeAt : Int} (hsleeper : s.sleeper i = some (job, wakeAt)) :
    ∃ query ∈ s.calls.map Call.query, job.provider ∈ query.oracle := by
  obtain ⟨call, hcall, hsleep⟩ := Option.bind_eq_some_iff.mp hsleeper
  have hmem := List.mem_of_getElem? hcall
  refine ⟨call.query, List.mem_map_of_mem hmem, ?_⟩
  have hphase := (h.calls call hmem).phase
  unfold Call.sleep at hsleep
  split at hsleep
  · next hasleep =>
    obtain ⟨rfl, -⟩ := Prod.mk.inj (Option.some.inj hsleep)
    simp only [PhaseOk, hasleep] at hphase
    rw [← hphase.1]
    simp
  · cases hsleep

theorem named_run {labels : List Label} {st : State × List Release}
    {G : State × List Release → Label → Prop}
    (hrun : Runs (logStep exchange stod steady system) G (init steady, []) labels st) :
    Named st.1 st.2 := by
  have hboth : Inv exchange stod st.1 ∧ Named st.1 st.2 := by
    refine hrun.invariant (I := fun st => Inv exchange stod st.1 ∧ Named st.1 st.2) ?_
      ⟨inv_init, fun _ hmem => absurd hmem List.not_mem_nil⟩
    rintro ⟨s, log⟩ label st' ⟨hinv, hnamed⟩ - hstep
    obtain ⟨s', hs', rfl⟩ := Option.map_eq_some_iff.mp hstep
    refine ⟨inv_step hinv hs', fun release hmem => ?_⟩
    obtain ⟨hqueries, hturn⟩ := limiterTurn_of_step hs'
    have hbefore : ∃ query ∈ s.calls.map Call.query, release.provider ∈ query.oracle := by
      rcases List.mem_append.mp hmem with hold | hnew
      · exact hnamed release hold
      · generalize released steady s label = new at hturn hnew
        cases hturn with
        | quiet => cases hnew
        | entered => cases hnew
        | left i job wakeAt hwas =>
          rw [List.mem_singleton.mp hnew]
          exact mem_oracle_of_sleeper hinv hwas
    obtain ⟨query, hquery, hprovider⟩ := hbefore
    exact ⟨query, hqueries ▸ List.mem_append_left _ hquery, hprovider⟩
  exact hboth.2

/-- Where every new query keeps to the provider objects of the queries so far,
all queries do. -/
theorem sameObjects_run {labels : List Label} {st : State × List Release}
    (hrun : Runs (logStep exchange stod steady system) OneObject (init steady, []) labels st) :
    ∀ query ∈ st.1.calls.map Call.query, ∀ query' ∈ st.1.calls.map Call.query,
      SameObjects query.oracle query'.oracle := by
  refine hrun.invariant (I := fun st => ∀ query ∈ st.1.calls.map Call.query,
    ∀ query' ∈ st.1.calls.map Call.query, SameObjects query.oracle query'.oracle) ?_
    fun _ hmem => absurd hmem List.not_mem_nil
  rintro ⟨s, log⟩ label st' h hone hstep
  obtain ⟨s', hs', rfl⟩ := Option.map_eq_some_iff.mp hstep
  have hnew (query query' : Query) (hold : query ∈ s.calls.map Call.query)
      (hquery' : query' ∈ requested label) : SameObjects query.oracle query'.oracle := by
    obtain ⟨call, hcall, rfl⟩ := List.mem_map.mp hold
    exact (hone query' hquery').2 call hcall
  have hsymm {oracle oracle' : List Nat} (hsame : SameObjects oracle oracle') :
      SameObjects oracle' oracle :=
    fun p hp q hq hvenue => (hsame q hq p hp hvenue.symm).symm
  intro query hquery query' hquery'
  dsimp only at hquery hquery'
  rw [(limiterTurn_of_step hs').1, List.mem_append] at hquery hquery'
  rcases hquery with hquery | hquery <;> rcases hquery' with hquery' | hquery'
  · exact h query hquery query' hquery'
  · exact hnew query query' hquery hquery'
  · exact hsymm (hnew query' query hquery' hquery)
  · -- a step brings one query at most
    have heq : query = query' := by
      cases label with
      | request => rw [List.mem_singleton.mp hquery, List.mem_singleton.mp hquery']
      | _ => cases hquery
    exact heq ▸ (hone query hquery).1

/-- Any two requests to one exchange are its delay apart, in every run in which
the queries reach the exchange through one provider object. -/
theorem requests_spaced (binancePaid mexcPaid gatePaid : Bool) (stod : Text → Option Int64)
    (steady : Clock) (system : SystemClock) {labels : List Label} {s : State} {log : List Release}
    (hrun : Runs (logStep (PriceService.registered binancePaid mexcPaid gatePaid) stod steady system)
      OneObject (init steady, []) labels (s, log)) :
    Spaced binancePaid mexcPaid gatePaid log := by
  refine (spacing_run hrun).spaced.imp_of_mem ?_
  intro a b ha hb happart hvenue
  obtain ⟨query, hquery, hp⟩ := named_run hrun a ha
  obtain ⟨query', hquery', hq⟩ := named_run hrun b hb
  rw [← registered_eq]
  exact happart (sameObjects_run hrun query hquery query' hquery' _ hp _ hq hvenue)

/-- The steps of call `i` up to its request. -/
def askLabels (i : Nat) : List Label := [.ask i, .check i, .limit i, .release i]

def startOf2025 : PriceService.DateAndTime := ⟨2025, 1, 1, 0, 0, 0, 0, 0, by decide⟩

/-- A query for Bitcoin at the start of 2025, to the oracle with the given
providers. -/
def bitcoinQuery (oracle : List Nat) : Query :=
  PriceService.exchangeQuery oracle (.sample startOf2025)

/-- Two queries to `binance` and one to `mexc`. -/
def singleSourceLabels : List Label :=
  .request (bitcoinQuery [0]) :: .request (bitcoinQuery [0]) :: .request (bitcoinQuery [1]) ::
    askLabels 0 ++ [.ask 1, .check 1, .limit 1] ++ askLabels 2 ++ [.tick, .tick, .release 1]

/-- A clock of one reading in a tenth of a second. -/
def steadyTenths : Clock where
  read k := k * 10 ^ 8
  mono := fun _ _ hle => Nat.mul_le_mul_right _ hle

def wallClock : SystemClock := .standing 0 (by decide)

/-- The second request to Binance waits for half a second, the one to MEXC does
not. -/
theorem requests_spaced_singleSource :
    ∃ s, Runs (logStep (PriceService.registered false false false) (fun _ => none) steadyTenths
        wallClock) OneObject (init steadyTenths, []) singleSourceLabels
        (s, [⟨0, 200000000⟩, ⟨1, 500000000⟩, ⟨0, 800000000⟩]) ∧
      Spaced false false false [⟨0, 200000000⟩, ⟨1, 500000000⟩, ⟨0, 800000000⟩] := by
  have hexec : (exec (guarded (logStep (PriceService.registered false false false) (fun _ => none)
      steadyTenths wallClock) fun st label => decide (OneObject st label))
      (init steadyTenths, []) singleSourceLabels).map Prod.snd =
      some [⟨0, 200000000⟩, ⟨1, 500000000⟩, ⟨0, 800000000⟩] := by decide
  obtain ⟨⟨s, log⟩, hs, rfl⟩ := Option.map_eq_some_iff.mp hexec
  have hrun := (runs_of_exec_guarded hs).mono fun _ _ => of_decide_eq_true
  exact ⟨s, hrun, requests_spaced false false false _ _ _ hrun⟩

/-- A clock that stands still. -/
def steadyStanding : Clock where
  read _ := 0
  mono := fun _ _ _ => Nat.le_refl 0

/-- The interface of payloads that begin with the name of the oracle. -/
def bitcoinInterface : PriceService.Interface where
  querySize := 104
  oracleQuery := fun payload =>
    { PriceService.OracleQuery.sample startOf2025 with oracle := payload.take 32 }

/-- The payload of a query that names an oracle. -/
def oraclePayload (name : String) : List UInt8 := ascii name ++ List.replicate 104 0

/-- A query to `binance` and one to `binance_mexc` at the same time. -/
def togetherLabels : List Label :=
  .request (bitcoinQuery [0]) :: .request (bitcoinQuery [3, 4]) :: askLabels 0 ++ askLabels 1

/-- Both oracles have a provider object for Binance, and two requests go there at
the same time. -/
theorem requests_together :
    (PriceService.findProvider bitcoinInterface PriceService.providers
      (oraclePayload "binance")).map Prod.fst = .ok (.exchanges [0]) ∧
    (PriceService.findProvider bitcoinInterface PriceService.providers
      (oraclePayload "binance_mexc")).map Prod.fst = .ok (.exchanges [3, 4]) ∧
    ∃ s, Runs (logStep (PriceService.registered false false false) (fun _ => none) steadyStanding
        wallClock) anyStep (init steadyStanding, []) togetherLabels (s, [⟨0, 0⟩, ⟨3, 0⟩]) ∧
      ¬ Spaced false false false [⟨0, 0⟩, ⟨3, 0⟩] := by
  have hexec : (exec (logStep (PriceService.registered false false false) (fun _ => none)
      steadyStanding wallClock) (init steadyStanding, []) togetherLabels).map Prod.snd =
      some [⟨0, 0⟩, ⟨3, 0⟩] := by decide
  obtain ⟨⟨s, log⟩, hs, rfl⟩ := Option.map_eq_some_iff.mp hexec
  exact ⟨rfl, rfl, s, runs_of_exec (fun _ _ _ => trivial) hs, by decide⟩

end OracleMachine.Price.Providers
