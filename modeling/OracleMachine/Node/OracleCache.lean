import OracleMachine.Lib.TimedMap
import OracleMachine.Network.Wire

/-!
# The reply cache of the OM node

`OracleCache` keeps the payloads of successful replies for `ttlSeconds`.  Every
public member holds the mutex from its first to its last line, so that a call
is one step on the state.

The members read `std::chrono::steady_clock`, some of them several times:
`lookup` once at its start, once per entry when it cleans up, and once for the
entry it finds.  The cache therefore carries the number of readings it has
taken of a clock that never goes back.  Times are nanoseconds, and
`duration_cast` to seconds is the division by 10^9.

`std::unordered_map` fixes no order of iteration.  `rehash` puts the entries
into any other order and stands for whatever the table does between two calls.

The results say what a call leaves in the cache in terms of `Holds`: only
`store` adds something, and a hit is something the cache holds that is
younger than the time to live.
-/

namespace OracleMachine.Node

open Lib.TimedMap
open Network.Wire

/-- `CacheKey`. -/
structure CacheKey where
  oracleQueryId : UInt64
  oracleInterfaceIndex : UInt32
  deriving DecidableEq

/-- `CacheEntry`. -/
structure CacheEntry where
  payloadData : List UInt8
  errorFlag : UInt16
  timeStamp : Nat
  hitCount : UInt32
  deriving DecidableEq

/-- `OracleCache`, with the number of clock readings it has taken. -/
structure OracleCache where
  cacheStorage : Map CacheKey CacheEntry
  totalRequests : UInt64
  cacheHits : UInt64
  cacheMisses : UInt64
  lastCleanupTime : Nat
  readings : Nat

namespace OracleCache

/-- `OracleCache::Config`. -/
structure Config where
  enabled : Bool := true
  ttlSeconds : UInt32 := 10
  maxEntries : Nat := 100000
  cleanUpIntervalSec : UInt32 := 60

/-- `OracleCache::CachedData`. -/
structure CachedData where
  payload : List UInt8
  errorFlag : UInt16
  deriving DecidableEq

/-- `duration_cast` of a difference of two readings to seconds. -/
def seconds (nanoseconds : Nat) : Nat := nanoseconds / 10 ^ 9

/-- The constructor, which reads the clock once. -/
def new (clock : Clock) : OracleCache where
  cacheStorage := ∅
  totalRequests := 0
  cacheHits := 0
  cacheMisses := 0
  lastCleanupTime := clock.read 0
  readings := 1

/-- `createKey`. -/
def createKey (query : OracleMachineQuery) : CacheKey where
  oracleQueryId := query.oracleQueryId
  oracleInterfaceIndex := query.oracleInterfaceIndex

/-- `isValid`, with its clock reading. -/
def isValid (config : Config) (now : Nat) (entry : CacheEntry) : Bool :=
  seconds (now - entry.timeStamp) < config.ttlSeconds.toNat

section Members

variable (clock : Clock) (config : Config) (c : OracleCache)

/-- `cleanupExpired`: `isValid` reads the clock once per entry. -/
def cleanupExpired : OracleCache :=
  { c with
    cacheStorage := sweep (fun i _ entry =>
      !isValid config (clock.read (c.readings + i)) entry) c.cacheStorage
    readings := c.readings + c.cacheStorage.entries.length }

/-- The periodic cleanup at the start of `lookup`.  The time of the cleanup is
the reading that was taken before it. -/
def periodicCleanup : OracleCache :=
  let now := clock.read c.readings
  let c := { c with readings := c.readings + 1 }
  if seconds (now - c.lastCleanupTime) ≥ config.cleanUpIntervalSec.toNat then
    { cleanupExpired clock config c with lastCleanupTime := now }
  else c

/-- Count a request. -/
def count : OracleCache := { c with totalRequests := c.totalRequests + 1 }

/-- Count a miss. -/
def miss : OracleCache := { c with cacheMisses := c.cacheMisses + 1 }

/-- `lookup`. -/
def lookup (query : OracleMachineQuery) : OracleCache × Option CachedData :=
  let c := c.count
  if config.enabled then
    let c := periodicCleanup clock config c
    let key := createKey query
    match c.cacheStorage.lookup key with
    | none => (c.miss, none)
    | some entry =>
      let now := clock.read c.readings
      let c := { c with readings := c.readings + 1 }
      if isValid config now entry then
        ({ c with
            cacheHits := c.cacheHits + 1
            cacheStorage :=
              c.cacheStorage.insert key { entry with hitCount := entry.hitCount + 1 } },
          some { payload := entry.payloadData, errorFlag := entry.errorFlag })
      else (miss { c with cacheStorage := c.cacheStorage.erase key }, none)
  else (c.miss, none)

/-- `removeOldest`. -/
def removeOldest : OracleCache :=
  match oldest CacheEntry.timeStamp c.cacheStorage with
  | some old => { c with cacheStorage := c.cacheStorage.erase old.1 }
  | none => c

/-- `store`. -/
def store (query : OracleMachineQuery) (payload : List UInt8) (errorFlags : UInt16) :
    OracleCache :=
  if config.enabled then
    -- error replies are not cached
    if errorFlags ≠ 0 then c
    else
      let c := if c.cacheStorage.entries.length ≥ config.maxEntries then c.removeOldest else c
      { c with
        cacheStorage := c.cacheStorage.insert (createKey query)
          { payloadData := payload, errorFlag := errorFlags,
            timeStamp := clock.read c.readings, hitCount := 0 }
        readings := c.readings + 1 }
  else c

/-- `clear`. -/
def clear : OracleCache := { c with cacheStorage := ∅ }

/-- `cleanInterface`. -/
def cleanInterface (interfaceIndex : UInt32) : OracleCache :=
  { c with
    cacheStorage :=
      sweep (fun _ key _ => key.oracleInterfaceIndex = interfaceIndex) c.cacheStorage }

/-- Another order of the same entries. -/
def rehash (storage : Map CacheKey CacheEntry) : Option OracleCache :=
  if storage.entries.Perm c.cacheStorage.entries then some { c with cacheStorage := storage }
  else none

/-! ## What a call leaves in the cache -/

/-- The cache holds this reply.  How often it was served plays no part. -/
def Holds (key : CacheKey) (payload : List UInt8) (errorFlag : UInt16) (timeStamp : Nat) :
    Prop :=
  ∃ hitCount, ⟨key, ⟨payload, errorFlag, timeStamp, hitCount⟩⟩ ∈ c.cacheStorage.entries

end Members

variable {clock : Clock} {config : Config} {c : OracleCache}
variable {key : CacheKey} {payload : List UInt8} {errorFlag : UInt16} {timeStamp : Nat}

/-- A cache with fewer entries holds no more. -/
theorem Holds.of_subset {c' : OracleCache} (h : Holds c' key payload errorFlag timeStamp)
    (hsub : ∀ e ∈ c'.cacheStorage.entries, e ∈ c.cacheStorage.entries) :
    Holds c key payload errorFlag timeStamp := by
  obtain ⟨hitCount, hmem⟩ := h
  exact ⟨hitCount, hsub _ hmem⟩

theorem not_holds_new : ¬ Holds (new clock) key payload errorFlag timeStamp := by
  rintro ⟨hitCount, hmem⟩
  exact List.not_mem_nil hmem

/-- The cleanup adds no entry and takes at least one reading. -/
theorem periodicCleanup_spec {clean : OracleCache}
    (h : periodicCleanup clock config c.count = clean) :
    (∀ e ∈ clean.cacheStorage.entries, e ∈ c.cacheStorage.entries) ∧
      c.readings < clean.readings := by
  simp only [periodicCleanup] at h
  split at h
  · subst h
    refine ⟨fun e he => mem_sweep he, ?_⟩
    show c.readings < c.readings + 1 + c.cacheStorage.entries.length
    omega
  · subst h
    exact ⟨fun e he => he, Nat.lt_succ_self _⟩

/-- A time stamp that is less than the time to live away. -/
theorem isValid_iff {now : Nat} {entry : CacheEntry} :
    isValid config now entry = true ↔
      now - entry.timeStamp < config.ttlSeconds.toNat * 10 ^ 9 := by
  rw [isValid, decide_eq_true_iff, seconds, Nat.div_lt_iff_lt_mul (by decide)]

section Lookup

variable {query : OracleMachineQuery} {cache : OracleCache} {found : Option CachedData}

/-- What `lookup` holds afterwards, it held before. -/
theorem holds_lookup (hlookup : lookup clock config c query = (cache, found))
    (h : Holds cache key payload errorFlag timeStamp) :
    Holds c key payload errorFlag timeStamp := by
  obtain rfl : (lookup clock config c query).1 = cache := congrArg Prod.fst hlookup
  simp only [lookup] at h
  split at h
  · generalize hclean : periodicCleanup clock config c.count = clean at h
    obtain ⟨hsub, -⟩ := periodicCleanup_spec hclean
    split at h
    · exact h.of_subset hsub
    · next entry hentry =>
      split at h
      · obtain ⟨hitCount, hmem⟩ := h
        rcases mem_insert hmem with heq | hmem
        · -- the entry that was served differs from the old one in its hit count only
          obtain ⟨rfl, hval⟩ := Sigma.mk.inj heq
          obtain ⟨rfl, rfl, rfl, -⟩ := CacheEntry.mk.inj (eq_of_heq hval)
          exact ⟨entry.hitCount, hsub _ (AList.mem_lookup_iff.mp hentry)⟩
        · exact ⟨hitCount, hsub _ hmem⟩
      · exact h.of_subset fun e he => hsub e (mem_erase he)
  · exact h

/-- `lookup` takes readings of the clock and gives none back. -/
theorem readings_lookup (hlookup : lookup clock config c query = (cache, found)) :
    c.readings ≤ cache.readings := by
  obtain rfl : (lookup clock config c query).1 = cache := congrArg Prod.fst hlookup
  simp only [lookup]
  split
  · generalize hclean : periodicCleanup clock config c.count = clean
    obtain ⟨-, hlt⟩ := periodicCleanup_spec hclean
    split
    · exact hlt.le
    · split <;> exact (hlt.trans (Nat.lt_succ_self _)).le
  · exact Nat.le_refl _

/-- A hit is something the cache holds under the key of the query.  At the last
reading of the lookup it is younger than the time to live. -/
theorem lookup_hit {data : CachedData}
    (hlookup : lookup clock config c query = (cache, some data)) :
    ∃ timeStamp last,
      Holds c (createKey query) data.payload data.errorFlag timeStamp ∧
      cache.readings = last + 1 ∧ c.readings ≤ last ∧
      clock.read last - timeStamp < config.ttlSeconds.toNat * 10 ^ 9 := by
  simp only [lookup] at hlookup
  split at hlookup
  · generalize hclean : periodicCleanup clock config c.count = clean at hlookup
    obtain ⟨hsub, hlt⟩ := periodicCleanup_spec hclean
    split at hlookup
    · cases hlookup
    · next entry hentry =>
      split at hlookup
      · next hvalid =>
        obtain ⟨rfl, hdata⟩ := Prod.mk.inj hlookup
        obtain rfl := Option.some.inj hdata
        exact ⟨entry.timeStamp, clean.readings,
          ⟨entry.hitCount, hsub _ (AList.mem_lookup_iff.mp hentry)⟩, rfl,
          hlt.le, isValid_iff.mp hvalid⟩
      · cases hlookup
  · cases hlookup

end Lookup

theorem mem_removeOldest {e : Sigma fun _ : CacheKey => CacheEntry}
    (h : e ∈ (removeOldest c).cacheStorage.entries) : e ∈ c.cacheStorage.entries := by
  unfold removeOldest at h
  split at h
  · exact mem_erase h
  · exact h

theorem readings_removeOldest : (removeOldest c).readings = c.readings := by
  unfold removeOldest
  split <;> rfl

/-- `store` adds at most the reply it is given, and that only without an error
flag and under the next reading of the clock. -/
theorem holds_store {query : OracleMachineQuery} {data : List UInt8} {flags : UInt16}
    (h : Holds (store clock config c query data flags) key payload errorFlag timeStamp) :
    Holds c key payload errorFlag timeStamp ∨
      (key = createKey query ∧ payload = data ∧ errorFlag = 0 ∧ flags = 0 ∧
        timeStamp = clock.read c.readings ∧
        (store clock config c query data flags).readings = c.readings + 1) := by
  simp only [store] at h ⊢
  split at h
  · split at h
    · exact .inl h
    · next hflags =>
      have hzero : flags = 0 := Decidable.not_not.mp hflags
      generalize hroom : (if c.cacheStorage.entries.length ≥ config.maxEntries then
        c.removeOldest else c) = room at h ⊢
      have hsub : ∀ e ∈ room.cacheStorage.entries, e ∈ c.cacheStorage.entries := by
        subst hroom
        intro e he
        split at he
        · exact mem_removeOldest he
        · exact he
      have hreadings : room.readings = c.readings := by
        subst hroom
        split
        · exact readings_removeOldest
        · rfl
      obtain ⟨hitCount, hmem⟩ := h
      rcases mem_insert hmem with heq | hmem
      · obtain ⟨rfl, hval⟩ := Sigma.mk.inj heq
        obtain ⟨rfl, rfl, rfl, -⟩ := CacheEntry.mk.inj (eq_of_heq hval)
        right
        simp_all
      · exact .inl ⟨hitCount, hsub _ hmem⟩
  · exact .inl h

theorem readings_store (query : OracleMachineQuery) (data : List UInt8) (flags : UInt16) :
    c.readings ≤ (store clock config c query data flags).readings := by
  simp only [store]
  split
  · split
    · exact Nat.le_refl _
    · split
      · rw [readings_removeOldest]
        exact Nat.le_succ _
      · exact Nat.le_succ _
  · exact Nat.le_refl _

end OracleCache

end OracleMachine.Node
