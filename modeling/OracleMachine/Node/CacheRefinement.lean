import OracleMachine.Lib.Transition
import OracleMachine.Lib.TtlMap
import OracleMachine.Node.OracleCache

/-!
# The reply cache is a map with a time to live

`OracleCache` drops entries by several routes: a sweep inside the lookup of another key, the
removal of an expired entry that a lookup finds, `clear` and `cleanInterface`.  This module
shows that none of them but the last two can be seen: the cache answers every lookup as the
plain map does that keeps everything.

The machine here runs any sequence of calls and keeps their history.  Every call is recorded
with the reading of the clock that is the next one when it starts.  For a store that is the
time stamp of its entry.  The time of a lookup is its last reading.

* `lastValue` reads the plain map off a history: the last call that affects a key counts.
* `refines_step` is the simulation, `lookup_answers` the answer to one lookup.
* `cache_refines_ttl_map` is the result for whole runs in which no store finds the cache
  full.
-/

namespace OracleMachine.Node.CacheRefinement

open Lib.TimedMap Lib.TtlMap Lib.Transition
open Network.Wire
open OracleCache (CachedData Config createKey)

/-! ## Calls and their history -/

/-- The calls of the public members, and what the hash table does between them. -/
inductive Op where
  | lookup (query : OracleMachineQuery)
  | store (query : OracleMachineQuery) (payload : List UInt8) (errorFlags : UInt16)
  | clear
  | cleanInterface (interfaceIndex : UInt32)
  | rehash (storage : Map CacheKey CacheEntry)

/-- The calls that affect a key. -/
def Op.affects (key : CacheKey) : Op → Bool
  | .lookup _ => false
  | .store query _ errorFlags => createKey query = key && errorFlags = 0
  | .clear => true
  | .cleanInterface interfaceIndex => key.oracleInterfaceIndex = interfaceIndex
  | .rehash _ => false

/-- The cache and the calls that it has seen, with their times. -/
structure State where
  cache : OracleCache
  history : List (Op × Nat)

section Machine

variable (clock : Clock) (config : Config)

def init : State where
  cache := OracleCache.new clock
  history := []

/-- The cache after a call. -/
def call (c : OracleCache) : Op → Option OracleCache
  | .lookup query => some (OracleCache.lookup clock config c query).1
  | .store query payload errorFlags => some (OracleCache.store clock config c query payload errorFlags)
  | .clear => some c.clear
  | .cleanInterface interfaceIndex => some (c.cleanInterface interfaceIndex)
  | .rehash storage => c.rehash storage

/-- One call. -/
def step (s : State) (op : Op) : Option State :=
  (call clock config s.cache op).map fun cache =>
    { cache, history := s.history ++ [(op, clock.read s.cache.readings)] }

/-- A store that is not refused finds room. -/
def FindsRoom (s : State) : Op → Prop
  | .store _ _ errorFlags =>
    errorFlags = 0 → s.cache.cacheStorage.entries.length < config.maxEntries
  | _ => True

end Machine

/-! ## The plain map of a history -/

/-- The last call that affects a key, and its time. -/
def lastAffecting (history : List (Op × Nat)) (key : CacheKey) : Option (Op × Nat) :=
  history.reverse.find? fun e => e.1.affects key

/-- The value under a key: that of the last call that affects it, when this is a store. -/
def lastValue (history : List (Op × Nat)) : Plain CacheKey CachedData := fun key =>
  match lastAffecting history key with
  | some (.store _ payload errorFlags, time) => some (⟨payload, errorFlags⟩, time)
  | _ => none

theorem lastAffecting_append (history : List (Op × Nat)) (op : Op) (time : Nat)
    (key : CacheKey) :
    lastAffecting (history ++ [(op, time)]) key =
      if op.affects key then some (op, time) else lastAffecting history key := by
  rw [lastAffecting, List.reverse_append, List.reverse_singleton, List.singleton_append,
    List.find?_cons]
  cases op.affects key <;> rfl

/-- A call that affects no key leaves the plain map as it is. -/
theorem lastValue_other {history : List (Op × Nat)} {op : Op} {time : Nat}
    (h : ∀ key, op.affects key = false) :
    lastValue (history ++ [(op, time)]) = lastValue history := by
  funext key
  simp [lastValue, lastAffecting_append, h key]

theorem lastValue_store (history : List (Op × Nat)) (query : OracleMachineQuery)
    (payload : List UInt8) (time : Nat) :
    lastValue (history ++ [(.store query payload 0, time)]) =
      (lastValue history).put (createKey query) ⟨payload, 0⟩ time := by
  funext key
  by_cases hkey : key = createKey query
  · simp [lastValue, lastAffecting_append, Op.affects, Plain.put, hkey]
  · simp [lastValue, lastAffecting_append, Op.affects, Plain.put, hkey, Ne.symm hkey]

theorem lastValue_clear (history : List (Op × Nat)) (time : Nat) :
    lastValue (history ++ [(.clear, time)]) = Plain.empty := by
  funext key
  simp [lastValue, lastAffecting_append, Op.affects, Plain.empty]

theorem lastValue_cleanInterface (history : List (Op × Nat)) (interfaceIndex : UInt32)
    (time : Nat) :
    lastValue (history ++ [(.cleanInterface interfaceIndex, time)]) =
      (lastValue history).drop fun key => key.oracleInterfaceIndex = interfaceIndex := by
  funext key
  by_cases hkey : key.oracleInterfaceIndex = interfaceIndex
  · simp [lastValue, lastAffecting_append, Op.affects, Plain.drop, hkey]
  · simp [lastValue, lastAffecting_append, Op.affects, Plain.drop, hkey]

/-! ## The simulation -/

/-- The reply of an entry and its time. -/
def view (entry : CacheEntry) : CachedData × Nat :=
  (⟨entry.payloadData, entry.errorFlag⟩, entry.timeStamp)

/-- `ttlSeconds` in nanoseconds. -/
def ttl (config : Config) : Nat := config.ttlSeconds.toNat * 10 ^ 9

variable {clock : Clock} {config : Config}

/-- The last reading that a cache has taken. -/
def lastReading (clock : Clock) (c : OracleCache) : Nat := clock.read (c.readings - 1)

/-- The cache stands for a plain map. -/
def Stands (clock : Clock) (config : Config) (c : OracleCache)
    (a : Plain CacheKey CachedData) : Prop :=
  0 < c.readings ∧ Refines view (ttl config) (lastReading clock c) c.cacheStorage a

theorem not_isValid_iff {now : Nat} {entry : CacheEntry} :
    OracleCache.isValid config now entry = false ↔ ttl config ≤ now - (view entry).2 := by
  rw [← Bool.not_eq_true, OracleCache.isValid_iff, ttl, view, not_lt]

/-- Readings that are taken later are not smaller. -/
theorem Stands.later {c c' : OracleCache} {a : Plain CacheKey CachedData}
    (h : Stands clock config c a) (hstorage : c'.cacheStorage = c.cacheStorage)
    (hreadings : c.readings ≤ c'.readings) : Stands clock config c' a := by
  obtain ⟨hpos, hrefines⟩ := h
  refine ⟨by omega, ?_⟩
  rw [hstorage]
  exact hrefines.mono (clock.mono (by omega))

/-- The periodic cleanup cannot be seen. -/
theorem stands_periodicCleanup {c : OracleCache} {a : Plain CacheKey CachedData}
    (h : Stands clock config c a) :
    Stands clock config (OracleCache.periodicCleanup clock config c.count) a := by
  simp only [OracleCache.periodicCleanup]
  split
  · -- every reading of the walk comes before the last one
    have hread : ∀ i < c.cacheStorage.entries.length, clock.read (c.readings + 1 + i) ≤
        clock.read (c.readings + 1 + c.cacheStorage.entries.length - 1) :=
      fun i hi => clock.mono (by omega)
    have hlater : lastReading clock c ≤
        clock.read (c.readings + 1 + c.cacheStorage.entries.length - 1) :=
      clock.mono (by omega)
    refine ⟨Nat.lt_of_lt_of_le (Nat.succ_pos _) (Nat.le_add_right _ _), ?_⟩
    refine h.2.sweep hlater hread fun i key entry hdropped => ?_
    rw [Bool.not_eq_true'] at hdropped
    exact not_isValid_iff.mp hdropped
  · exact h.later rfl (Nat.le_succ _)

/-- A lookup answers as the plain map does at its last reading, and leaves the plain map as it
is. -/
theorem stands_lookup {c : OracleCache} {a : Plain CacheKey CachedData}
    (henabled : config.enabled = true) (h : Stands clock config c a)
    (query : OracleMachineQuery) :
    Stands clock config (OracleCache.lookup clock config c query).1 a ∧
      (OracleCache.lookup clock config c query).2 =
        a.get (ttl config) (createKey query)
          (lastReading clock (OracleCache.lookup clock config c query).1) := by
  have hclean := stands_periodicCleanup h
  simp only [OracleCache.lookup, henabled, if_true]
  generalize OracleCache.periodicCleanup clock config c.count = clean at hclean ⊢
  cases hentry : clean.cacheStorage.lookup (createKey query) with
  | none =>
    refine ⟨hclean.later rfl (Nat.le_refl _), ?_⟩
    exact (hclean.2.get_of_none hentry (Nat.le_refl _)).symm
  | some entry =>
    have hread : Stands clock config { clean with readings := clean.readings + 1 } a :=
      hclean.later rfl (Nat.le_succ _)
    have hanswer := hread.2.get_of_some hentry (clock.read clean.readings)
    by_cases hvalid : OracleCache.isValid config (clock.read clean.readings) entry = true
    · have hyoung : clock.read clean.readings - (view entry).2 < ttl config :=
        OracleCache.isValid_iff.mp hvalid
      rw [if_pos hyoung] at hanswer
      simp only [if_pos hvalid]
      exact ⟨⟨hread.1, hread.2.touch hentry rfl⟩, hanswer.symm⟩
    · have hold : ttl config ≤ clock.read clean.readings - (view entry).2 :=
        not_isValid_iff.mp (Bool.not_eq_true _ ▸ hvalid)
      rw [if_neg (by omega)] at hanswer
      simp only [if_neg hvalid]
      exact ⟨⟨hread.1, hread.2.erase hentry hold⟩, hanswer.symm⟩

/-- A store that finds room puts its reply into the plain map. -/
theorem stands_store {c : OracleCache} {a : Plain CacheKey CachedData}
    (henabled : config.enabled = true) (h : Stands clock config c a)
    (hroom : c.cacheStorage.entries.length < config.maxEntries)
    (query : OracleMachineQuery) (payload : List UInt8) :
    Stands clock config (OracleCache.store clock config c query payload 0)
      (a.put (createKey query) ⟨payload, 0⟩ (clock.read c.readings)) := by
  have hread : Stands clock config { c with readings := c.readings + 1 } a :=
    h.later rfl (Nat.le_succ _)
  simp only [OracleCache.store, henabled, if_true, ne_eq, not_true_eq_false, if_false,
    ge_iff_le, if_neg (not_le.mpr hroom)]
  exact ⟨hread.1, hread.2.put _ rfl⟩

/-- The cache stands for the plain map of its history. -/
def Inv (clock : Clock) (config : Config) (s : State) : Prop :=
  Stands clock config s.cache (lastValue s.history)

theorem inv_init : Inv clock config (init clock) := by
  refine ⟨Nat.one_pos, ?_⟩
  exact Refines.empty

/-- Every call keeps that. -/
theorem inv_step {s s' : State} {op : Op} (henabled : config.enabled = true)
    (h : Inv clock config s) (hroom : FindsRoom config s op)
    (hstep : step clock config s op = some s') : Inv clock config s' := by
  rw [step, Option.map_eq_some_iff] at hstep
  obtain ⟨cache, hcall, rfl⟩ := hstep
  rw [Inv] at h ⊢
  cases op with
  | lookup query =>
    obtain rfl := Option.some.inj hcall
    rw [lastValue_other fun _ => rfl]
    exact (stands_lookup henabled h query).1
  | store query payload errorFlags =>
    obtain rfl := Option.some.inj hcall
    by_cases hflags : errorFlags = 0
    · rw [hflags, lastValue_store]
      exact stands_store henabled h (hroom hflags) query payload
    · rw [lastValue_other fun key => by simp [Op.affects, hflags]]
      simpa [OracleCache.store, henabled, hflags] using h
  | clear =>
    obtain rfl := Option.some.inj hcall
    rw [lastValue_clear]
    exact ⟨h.1, Refines.empty⟩
  | cleanInterface interfaceIndex =>
    obtain rfl := Option.some.inj hcall
    rw [lastValue_cleanInterface]
    exact ⟨h.1, h.2.drop _⟩
  | rehash storage =>
    rw [lastValue_other fun _ => rfl]
    simp only [call, OracleCache.rehash] at hcall
    split at hcall
    · rename_i hperm
      obtain rfl := Option.some.inj hcall
      exact ⟨h.1, h.2.perm hperm⟩
    · cases hcall

/-! ## Whole runs -/

/-- The history of a run is its calls. -/
theorem history_of_runs {G : State → Op → Prop} {ops : List Op} {s t : State}
    (hrun : Runs (step clock config) G s ops t) :
    t.history.map Prod.fst = s.history.map Prod.fst ++ ops := by
  induction hrun with
  | nil s => rw [List.append_nil]
  | cons guard fires rest ih =>
    rw [step, Option.map_eq_some_iff] at fires
    obtain ⟨cache, -, rfl⟩ := fires
    rw [ih]
    simp

/-- In every run of an enabled cache in which no store finds the cache full, a lookup hits
exactly when the last call that affects its key is a store that is younger than the time to
live, and it returns the payload and the flag of this store. -/
theorem cache_refines_ttl_map (henabled : config.enabled = true) {ops : List Op} {s : State}
    (hrun : Runs (step clock config) (FindsRoom config) (init clock) ops s)
    (query : OracleMachineQuery) (data : CachedData) :
    s.history.map Prod.fst = ops ∧
    ((OracleCache.lookup clock config s.cache query).2 = some data ↔
      ∃ stored time,
        lastAffecting s.history (createKey query) =
          some (.store stored data.payload data.errorFlag, time) ∧
        lastReading clock (OracleCache.lookup clock config s.cache query).1 - time <
          config.ttlSeconds.toNat * 10 ^ 9) := by
  refine ⟨history_of_runs hrun, ?_⟩
  have hinv : Inv clock config s :=
    hrun.invariant (fun _ _ _ h hroom hstep => inv_step henabled h hroom hstep) inv_init
  rw [(stands_lookup henabled hinv query).2, Plain.get, lastValue]
  cases hlast : lastAffecting s.history (createKey query) with
  | none => simp
  | some event =>
    obtain ⟨op, time⟩ := event
    cases op with
    | store stored payload errorFlags =>
      simp only [Option.some.injEq, Prod.mk.injEq, Op.store.injEq]
      by_cases hyoung : lastReading clock (OracleCache.lookup clock config s.cache query).1 -
          time < ttl config
      · rw [if_pos hyoung, Option.some.injEq]
        constructor
        · intro h
          rw [← h]
          exact ⟨stored, time, ⟨⟨rfl, rfl, rfl⟩, rfl⟩, hyoung⟩
        · intro h
          obtain ⟨_, _, ⟨⟨rfl, hpayload, hflags⟩, rfl⟩, -⟩ := h
          rw [hpayload, hflags]
      · rw [if_neg hyoung]
        constructor
        · intro h
          cases h
        · intro h
          obtain ⟨_, _, ⟨-, rfl⟩, hlt⟩ := h
          exact absurd hlt hyoung
    | _ => simp

/-- A reply is stored, the interface of another one is cleaned, and a lookup hits. -/
theorem cache_refines_ttl_map_hit :
    ∃ s : State,
      s.history.map Prod.fst = [.store ⟨5, 1, 0⟩ [42] 0, .cleanInterface 2] ∧
      (OracleCache.lookup ⟨id, monotone_id⟩ {} s.cache ⟨5, 1, 9⟩).2 = some ⟨[42], 0⟩ := by
  have hrun : Runs (step ⟨id, monotone_id⟩ {}) (FindsRoom {}) (init ⟨id, monotone_id⟩)
      [.store ⟨5, 1, 0⟩ [42] 0, .cleanInterface 2] _ :=
    .cons (fun _ => by decide) rfl (.cons trivial rfl (.nil _))
  obtain ⟨hhistory, hhit⟩ := cache_refines_ttl_map rfl hrun ⟨5, 1, 9⟩ ⟨[42], 0⟩
  exact ⟨_, hhistory, hhit.mpr ⟨⟨5, 1, 0⟩, 1, rfl, by decide⟩⟩

end OracleMachine.Node.CacheRefinement
