import OracleMachine.Node.CacheRefinement

/-!
# The reply cache at its capacity

What holds of `OracleCache` in every reachable state, and what a store does to
the entries under other keys.  The machine is the one of
`Node.CacheRefinement`: any sequence of calls, and whatever the hash table does
with its order between them.

* `Invariant` is what every call keeps: the bound on the entries, no error flag,
  no time stamp behind the last reading of the clock, and the sum of the
  counters, which are unsigned and wrap around together.
* `storage_store` says once what a store does: it makes room (`makeRoom`) and
  inserts.  `victim` is the entry that it removes to make room.
* `cache_invariant` is the invariant over whole runs.
* `store_frame_iff` is about the other keys.  The test for a full cache comes
  before the search for the key, so that a store that only replaces an entry
  can remove another one (`replacing_removes`).
-/

namespace OracleMachine.Node.CacheCapacity

open Lib.TimedMap Lib.Transition
open Network.Wire
open OracleCache (Config Holds createKey removeOldest)
open CacheRefinement (Op State call init lastReading step)

variable {clock : Clock} {config : Config} {c : OracleCache}

/-! ## Making room -/

/-- The first part of `store`: a full cache gives up its oldest entry. -/
def makeRoom (config : Config) (c : OracleCache) : OracleCache :=
  if c.cacheStorage.entries.length ≥ config.maxEntries then c.removeOldest else c

/-- The entry that a store with the given flag removes to make room. -/
def victim (config : Config) (c : OracleCache) (errorFlags : UInt16) :
    Option (Sigma fun _ : CacheKey => CacheEntry) :=
  if config.enabled && errorFlags = 0 &&
      config.maxEntries ≤ c.cacheStorage.entries.length then
    oldest CacheEntry.timeStamp c.cacheStorage
  else none

/-- What `store` does to the entries: it makes room and inserts. -/
theorem storage_store (henabled : config.enabled = true) (query : OracleMachineQuery)
    (payload : List UInt8) :
    (OracleCache.store clock config c query payload 0).cacheStorage =
      (makeRoom config c).cacheStorage.insert (createKey query)
        { payloadData := payload, errorFlag := 0,
          timeStamp := clock.read (makeRoom config c).readings, hitCount := 0 } := by
  simp only [OracleCache.store, henabled, if_true, ne_eq, not_true_eq_false, if_false]
  rfl

/-- A store of an error reply, or to a disabled cache, does nothing. -/
theorem store_refused {errorFlags : UInt16} (h : ¬ (config.enabled = true ∧ errorFlags = 0))
    (query : OracleMachineQuery) (payload : List UInt8) :
    OracleCache.store clock config c query payload errorFlags = c := by
  unfold OracleCache.store
  by_cases henabled : config.enabled = true
  · rw [if_pos henabled, if_pos]
    intro hflags
    exact h ⟨henabled, hflags⟩
  · rw [if_neg henabled]

/-- A cache that is not full keeps everything. -/
theorem makeRoom_of_lt (h : c.cacheStorage.entries.length < config.maxEntries) :
    makeRoom config c = c := if_neg (Nat.not_le.mpr h)

/-- A full cache gives up its oldest entry. -/
theorem storage_makeRoom_of_full (hfull : config.maxEntries ≤ c.cacheStorage.entries.length)
    {old : Sigma fun _ : CacheKey => CacheEntry}
    (hold : oldest CacheEntry.timeStamp c.cacheStorage = some old) :
    (makeRoom config c).cacheStorage = c.cacheStorage.erase old.1 := by
  rw [makeRoom, if_pos hfull, removeOldest, hold]

/-- An empty cache has nothing to give up. -/
theorem storage_makeRoom_of_nil (h : c.cacheStorage.entries = []) :
    (makeRoom config c).cacheStorage = c.cacheStorage := by
  unfold makeRoom removeOldest oldest
  rw [h]
  split <;> rfl

theorem mem_makeRoom {e : Sigma fun _ : CacheKey => CacheEntry}
    (h : e ∈ (makeRoom config c).cacheStorage.entries) : e ∈ c.cacheStorage.entries := by
  unfold makeRoom at h
  split at h
  · exact OracleCache.mem_removeOldest h
  · exact h

/-- Behind it there is room for one entry, as soon as the cache may have one. -/
theorem length_makeRoom_lt (hmax : 1 ≤ config.maxEntries)
    (hsize : c.cacheStorage.entries.length ≤ config.maxEntries) :
    (makeRoom config c).cacheStorage.entries.length < config.maxEntries := by
  by_cases hfull : config.maxEntries ≤ c.cacheStorage.entries.length
  · have hne : c.cacheStorage.entries ≠ [] := by
      apply List.ne_nil_of_length_pos
      omega
    obtain ⟨old, hold⟩ := exists_oldest CacheEntry.timeStamp hne
    rw [storage_makeRoom_of_full hfull hold]
    exact Nat.lt_of_lt_of_le (length_erase_lt (oldest_le hold).1) hsize
  · rw [makeRoom_of_lt (Nat.not_le.mp hfull)]
    exact Nat.not_le.mp hfull

/-! ## The invariant -/

/-- What every call keeps. -/
structure Invariant (clock : Clock) (config : Config) (c : OracleCache) : Prop where
  size : c.cacheStorage.entries.length ≤ config.maxEntries
  held : ∀ {key payload errorFlag timeStamp}, Holds c key payload errorFlag timeStamp →
    errorFlag = 0 ∧ timeStamp ≤ lastReading clock c
  counted : c.cacheHits + c.cacheMisses = c.totalRequests

theorem invariant_new : Invariant clock config (OracleCache.new clock) where
  size := Nat.zero_le _
  held := fun h => absurd h OracleCache.not_holds_new
  counted := rfl

theorem lastReading_mono {c' : OracleCache} (h : c.readings ≤ c'.readings) :
    lastReading clock c ≤ lastReading clock c' := clock.mono (by omega)

/-- The cleanup leaves the counters alone and adds no entry. -/
theorem periodicCleanup_frame (clock : Clock) (config : Config) (c : OracleCache) :
    (OracleCache.periodicCleanup clock config c).cacheStorage.entries.length ≤
        c.cacheStorage.entries.length ∧
      (OracleCache.periodicCleanup clock config c).cacheHits = c.cacheHits ∧
      (OracleCache.periodicCleanup clock config c).cacheMisses = c.cacheMisses ∧
      (OracleCache.periodicCleanup clock config c).totalRequests = c.totalRequests := by
  simp only [OracleCache.periodicCleanup]
  split
  · exact ⟨length_sweep_le _ _, rfl, rfl, rfl⟩
  · exact ⟨Nat.le_refl _, rfl, rfl, rfl⟩

/-- A lookup adds no entry, and counts a hit or a miss. -/
theorem lookup_frame (clock : Clock) (config : Config) (c : OracleCache)
    (query : OracleMachineQuery) :
    (OracleCache.lookup clock config c query).1.cacheStorage.entries.length ≤
        c.cacheStorage.entries.length ∧
      (OracleCache.lookup clock config c query).1.totalRequests = c.totalRequests + 1 ∧
      ((OracleCache.lookup clock config c query).1.cacheHits = c.cacheHits + 1 ∧
          (OracleCache.lookup clock config c query).1.cacheMisses = c.cacheMisses ∨
        (OracleCache.lookup clock config c query).1.cacheHits = c.cacheHits ∧
          (OracleCache.lookup clock config c query).1.cacheMisses = c.cacheMisses + 1) := by
  obtain ⟨hsize, hhits, hmisses, htotal⟩ := periodicCleanup_frame clock config c.count
  by_cases henabled : config.enabled = true
  · simp only [OracleCache.lookup, if_pos henabled]
    generalize OracleCache.periodicCleanup clock config c.count = clean at *
    cases hentry : clean.cacheStorage.lookup (createKey query) with
    | none => exact ⟨hsize, htotal, .inr ⟨hhits, congrArg (· + 1) hmisses⟩⟩
    | some entry =>
      by_cases hvalid : OracleCache.isValid config (clock.read clean.readings) entry = true
      · simp only [if_pos hvalid]
        have hmem : (⟨createKey query, entry⟩ : Sigma fun _ => CacheEntry) ∈
            clean.cacheStorage.entries := AList.mem_lookup_iff.mp hentry
        exact ⟨Nat.le_trans (length_insert_of_mem hmem _) hsize, htotal,
          .inl ⟨congrArg (· + 1) hhits, hmisses⟩⟩
      · simp only [if_neg hvalid]
        exact ⟨Nat.le_trans (length_erase_le _ _) hsize, htotal,
          .inr ⟨hhits, congrArg (· + 1) hmisses⟩⟩
  · simp only [OracleCache.lookup, if_neg henabled]
    exact ⟨Nat.le_refl _, rfl, .inr ⟨rfl, rfl⟩⟩

theorem invariant_lookup (h : Invariant clock config c) (query : OracleMachineQuery) :
    Invariant clock config (OracleCache.lookup clock config c query).1 := by
  obtain ⟨hsize, htotal, hcount⟩ := lookup_frame clock config c query
  refine ⟨Nat.le_trans hsize h.size, ?_, ?_⟩
  · intro key payload errorFlag timeStamp hholds
    obtain ⟨hflag, htime⟩ := h.held (OracleCache.holds_lookup rfl hholds)
    exact ⟨hflag, Nat.le_trans htime (lastReading_mono (OracleCache.readings_lookup rfl))⟩
  · rw [htotal, ← h.counted]
    rcases hcount with ⟨hhits, hmisses⟩ | ⟨hhits, hmisses⟩
    · rw [hhits, hmisses, UInt64.add_assoc, UInt64.add_comm 1, UInt64.add_assoc]
    · rw [hhits, hmisses, UInt64.add_assoc]

/-- The counters play no part in a store. -/
theorem counters_store (query : OracleMachineQuery) (payload : List UInt8)
    (errorFlags : UInt16) :
    (OracleCache.store clock config c query payload errorFlags).cacheHits = c.cacheHits ∧
      (OracleCache.store clock config c query payload errorFlags).cacheMisses = c.cacheMisses ∧
      (OracleCache.store clock config c query payload errorFlags).totalRequests =
        c.totalRequests := by
  have hroom : (removeOldest c).cacheHits = c.cacheHits ∧
      (removeOldest c).cacheMisses = c.cacheMisses ∧
      (removeOldest c).totalRequests = c.totalRequests := by
    unfold removeOldest
    split <;> exact ⟨rfl, rfl, rfl⟩
  simp only [OracleCache.store]
  split
  · split
    · exact ⟨rfl, rfl, rfl⟩
    · split
      · exact hroom
      · exact ⟨rfl, rfl, rfl⟩
  · exact ⟨rfl, rfl, rfl⟩

theorem invariant_store (hmax : 1 ≤ config.maxEntries) (h : Invariant clock config c)
    (query : OracleMachineQuery) (payload : List UInt8) (errorFlags : UInt16) :
    Invariant clock config (OracleCache.store clock config c query payload errorFlags) := by
  obtain ⟨hhits, hmisses, htotal⟩ :=
    @counters_store clock config c query payload errorFlags
  refine ⟨?_, ?_, by rw [hhits, hmisses, htotal, h.counted]⟩
  · by_cases haccepted : config.enabled = true ∧ errorFlags = 0
    · rw [haccepted.2, storage_store haccepted.1]
      have hroom := length_makeRoom_lt hmax h.size
      exact Nat.le_trans (length_insert_le _ _ _) hroom
    · rw [store_refused haccepted]
      exact h.size
  · intro key data errorFlag timeStamp hholds
    have hmono := @lastReading_mono clock _ _
      (@OracleCache.readings_store clock config c query payload errorFlags)
    rcases OracleCache.holds_store hholds with hold | ⟨-, -, hflag, -, htime, hreadings⟩
    · obtain ⟨hflag, htime⟩ := h.held hold
      exact ⟨hflag, Nat.le_trans htime hmono⟩
    · -- the new entry has the last reading as its time stamp
      refine ⟨hflag, ?_⟩
      rw [htime, lastReading, hreadings, Nat.add_sub_cancel]

/-- A call that only drops entries. -/
theorem Invariant.of_sublist {c' : OracleCache} (h : Invariant clock config c)
    (hlength : c'.cacheStorage.entries.length ≤ c.cacheStorage.entries.length)
    (hsub : ∀ e ∈ c'.cacheStorage.entries, e ∈ c.cacheStorage.entries)
    (hsame : c'.readings = c.readings ∧ c'.cacheHits = c.cacheHits ∧
      c'.cacheMisses = c.cacheMisses ∧ c'.totalRequests = c.totalRequests) :
    Invariant clock config c' := by
  obtain ⟨hreadings, hhits, hmisses, htotal⟩ := hsame
  refine ⟨Nat.le_trans hlength h.size, ?_, by rw [hhits, hmisses, htotal, h.counted]⟩
  intro key payload errorFlag timeStamp hholds
  rw [lastReading, hreadings]
  exact h.held (hholds.of_subset hsub)

/-- Every call keeps the invariant. -/
theorem invariant_call (hmax : 1 ≤ config.maxEntries) {op : Op} {c' : OracleCache}
    (h : Invariant clock config c) (hcall : call clock config c op = some c') :
    Invariant clock config c' := by
  cases op with
  | lookup query =>
    rw [← Option.some.inj hcall]
    exact invariant_lookup h query
  | store query payload errorFlags =>
    rw [← Option.some.inj hcall]
    exact invariant_store hmax h query payload errorFlags
  | clear =>
    rw [← Option.some.inj hcall]
    apply @Invariant.of_sublist clock config c c.clear h (Nat.zero_le _) _ ⟨rfl, rfl, rfl, rfl⟩
    intro e he
    exact absurd he List.not_mem_nil
  | cleanInterface interfaceIndex =>
    rw [← Option.some.inj hcall]
    exact h.of_sublist (length_sweep_le _ _) (fun e he => mem_sweep he) ⟨rfl, rfl, rfl, rfl⟩
  | rehash storage =>
    simp only [call, OracleCache.rehash] at hcall
    split at hcall
    · rename_i hperm
      rw [← Option.some.inj hcall]
      exact h.of_sublist (Nat.le_of_eq hperm.length_eq) (fun e he => hperm.subset he)
        ⟨rfl, rfl, rfl, rfl⟩
    · simp at hcall

/-! ## The entry that a store removes -/

/-- An entry whose key is gone after a store was removed to make room. -/
theorem victim_of_gone {query : OracleMachineQuery} {payload : List UInt8}
    {errorFlags : UInt16} {removed : Sigma fun _ : CacheKey => CacheEntry}
    (hmem : removed ∈ c.cacheStorage.entries)
    (hgone : removed.1 ∉
      (OracleCache.store clock config c query payload errorFlags).cacheStorage) :
    victim config c errorFlags = some removed := by
  have hlookup : c.cacheStorage.lookup removed.1 = some removed.2 :=
    AList.mem_lookup_iff.mpr hmem
  by_cases haccepted : config.enabled = true ∧ errorFlags = 0
  · obtain ⟨henabled, rfl⟩ := haccepted
    rw [← AList.lookup_eq_none, storage_store henabled] at hgone
    have hkey : removed.1 ≠ createKey query := by
      intro heq
      rw [heq, AList.lookup_insert] at hgone
      simp at hgone
    rw [AList.lookup_insert_ne hkey] at hgone
    by_cases hfull : config.maxEntries ≤ c.cacheStorage.entries.length
    · obtain ⟨old, hold⟩ :=
        exists_oldest CacheEntry.timeStamp (List.ne_nil_of_mem hmem)
      rw [storage_makeRoom_of_full hfull hold] at hgone
      -- only the oldest entry is not there any more
      have heq : removed.1 = old.1 := by
        by_contra hne
        rw [AList.lookup_erase_ne hne, hlookup] at hgone
        simp at hgone
      have hvalue : some removed.2 = some old.2 := by
        rw [← hlookup, heq]
        exact AList.mem_lookup_iff.mpr (oldest_le hold).1
      rw [victim, if_pos (by simp [henabled, hfull]), hold]
      exact congrArg some (Sigma.ext heq (heq_of_eq (Option.some.inj hvalue))).symm
    · rw [makeRoom_of_lt (Nat.not_le.mp hfull), hlookup] at hgone
      simp at hgone
  · rw [store_refused haccepted, ← AList.lookup_eq_none, hlookup] at hgone
    simp at hgone

/-- No entry that stays is older than the one that is removed. -/
theorem victim_le (h : Invariant clock config c) {query : OracleMachineQuery}
    {payload : List UInt8} {errorFlags : UInt16}
    {removed kept : Sigma fun _ : CacheKey => CacheEntry}
    (hvictim : victim config c errorFlags = some removed)
    (hkept : kept ∈
      (OracleCache.store clock config c query payload errorFlags).cacheStorage.entries) :
    removed.2.timeStamp ≤ kept.2.timeStamp := by
  rw [victim, Option.ite_none_right_eq_some] at hvictim
  obtain ⟨haccepted, hold⟩ := hvictim
  simp only [Bool.and_eq_true, decide_eq_true_eq] at haccepted
  obtain ⟨hremoved, hle⟩ := oldest_le hold
  rw [haccepted.1.2, storage_store haccepted.1.1] at hkept
  rcases mem_insert hkept with rfl | hkept
  · -- the new entry has a later reading than all the others
    have hreadings : (makeRoom config c).readings = c.readings := by
      unfold makeRoom
      split
      · exact OracleCache.readings_removeOldest
      · rfl
    have htime := (h.held ⟨removed.2.hitCount, hremoved⟩).2
    show removed.2.timeStamp ≤ clock.read (makeRoom config c).readings
    rw [hreadings]
    exact Nat.le_trans htime (clock.mono (Nat.sub_le _ _))
  · exact hle kept (mem_makeRoom hkept)

/-! ## Whole runs -/

theorem step_cache {s s' : State} {op : Op} (h : step clock config s op = some s') :
    call clock config s.cache op = some s'.cache := by
  rw [step, Option.map_eq_some_iff] at h
  obtain ⟨cache, hcall, rfl⟩ := h
  exact hcall

/-- In every run: there are at most `maxEntries` entries, every entry has the
error flag 0 and a time stamp that is not later than the last reading of the
clock, and the hits and misses add up to the requests.  When a store removes an
entry, to make room or so that its key is gone, no entry that stays has an
earlier time stamp. -/
theorem cache_invariant (hmax : 1 ≤ config.maxEntries) {ops : List Op} {s : State}
    (hrun : Runs (step clock config) anyStep (init clock) ops s) :
    s.cache.cacheStorage.entries.length ≤ config.maxEntries ∧
      (∀ e ∈ s.cache.cacheStorage.entries,
        e.2.errorFlag = 0 ∧ e.2.timeStamp ≤ lastReading clock s.cache) ∧
      s.cache.cacheHits + s.cache.cacheMisses = s.cache.totalRequests ∧
      ∀ query payload errorFlags removed,
        victim config s.cache errorFlags = some removed ∨
            removed ∈ s.cache.cacheStorage.entries ∧ removed.1 ∉
              (OracleCache.store clock config s.cache query payload errorFlags).cacheStorage →
          ∀ kept ∈ (OracleCache.store clock config s.cache query payload
              errorFlags).cacheStorage.entries,
            removed.2.timeStamp ≤ kept.2.timeStamp := by
  have hinv : Invariant clock config s.cache := by
    apply hrun.invariant (I := fun s => Invariant clock config s.cache) _ invariant_new
    intro s op s' h _ hstep
    exact invariant_call hmax h (step_cache hstep)
  refine ⟨hinv.size, fun e he => hinv.held ⟨e.2.hitCount, he⟩, hinv.counted, ?_⟩
  intro query payload errorFlags removed hremoved kept hkept
  rcases hremoved with hvictim | ⟨hmem, hgone⟩
  · exact victim_le hinv hvictim hkept
  · exact victim_le hinv (victim_of_gone hmem hgone) hkept

/-- Two replies to a cache of one entry: the second removes the first. -/
theorem cache_invariant_one :
    ∃ s : State, s.cache.cacheStorage.entries.length ≤ 1 ∧
      victim { maxEntries := 1 } s.cache 0 = some ⟨⟨5, 1⟩, ⟨[42], 0, 1, 0⟩⟩ ∧
      ∀ kept ∈ (OracleCache.store ⟨id, monotone_id⟩ { maxEntries := 1 } s.cache
          ⟨6, 1, 0⟩ [43] 0).cacheStorage.entries, 1 ≤ kept.2.timeStamp := by
  have hrun : Runs (step ⟨id, monotone_id⟩ { maxEntries := 1 }) anyStep
      (init ⟨id, monotone_id⟩) [.store ⟨5, 1, 0⟩ [42] 0] _ :=
    .cons trivial rfl (.nil _)
  obtain ⟨hsize, -, -, hremoved⟩ := cache_invariant (Nat.le_refl 1) hrun
  exact ⟨_, hsize, rfl, hremoved ⟨6, 1, 0⟩ [43] 0 _ (.inl rfl)⟩

/-! ## The entries under other keys -/

/-- What a store under `key` may do to the other keys.  As long as it needs no
new entry or there is room for one, they stay as they are.  Otherwise one of the
oldest entries goes, and no other. -/
structure StoreFrame (config : Config) (c : OracleCache) (key : CacheKey)
    (c' : OracleCache) : Prop where
  kept : key ∈ c.cacheStorage ∨ c.cacheStorage.entries.length < config.maxEntries →
    ∀ k, k ≠ key → c'.cacheStorage.lookup k = c.cacheStorage.lookup k
  evicts : key ∉ c.cacheStorage → config.maxEntries ≤ c.cacheStorage.entries.length →
    c.cacheStorage.entries ≠ [] →
    ∃ old ∈ c.cacheStorage.entries,
      (∀ e ∈ c.cacheStorage.entries, old.2.timeStamp ≤ e.2.timeStamp) ∧
        c'.cacheStorage.lookup old.1 = none ∧
        ∀ k, k ≠ key → k ≠ old.1 → c'.cacheStorage.lookup k = c.cacheStorage.lookup k

/-- A disabled cache stays empty. -/
theorem entries_of_disabled (hdisabled : config.enabled = false) {ops : List Op} {s : State}
    (hrun : Runs (step clock config) anyStep (init clock) ops s) :
    s.cache.cacheStorage.entries = [] := by
  apply hrun.invariant (I := fun s => s.cache.cacheStorage.entries = []) _ rfl
  intro s op s' hnil _ hstep
  have hcall := step_cache hstep
  cases op with
  | lookup query =>
    rw [← Option.some.inj hcall, ← List.length_eq_zero_iff]
    have hle := (lookup_frame clock config s.cache query).1
    rw [hnil] at hle
    exact Nat.le_zero.mp hle
  | store query payload errorFlags =>
    rw [← Option.some.inj hcall, store_refused (by simp [hdisabled]), hnil]
  | clear =>
    rw [← Option.some.inj hcall]
    rfl
  | cleanInterface interfaceIndex =>
    rw [← Option.some.inj hcall, ← List.length_eq_zero_iff]
    have hle := length_sweep_le
      (fun _ key _ => key.oracleInterfaceIndex = interfaceIndex) s.cache.cacheStorage
    rw [hnil] at hle
    exact Nat.le_zero.mp hle
  | rehash storage =>
    simp only [call, OracleCache.rehash] at hcall
    split at hcall
    · rename_i hperm
      rw [← Option.some.inj hcall]
      rw [hnil] at hperm
      exact hperm.eq_nil
    · simp at hcall

/-- A store to a cache that is not full leaves the other keys alone. -/
theorem lookup_store_of_lt (henabled : config.enabled = true)
    (hroom : c.cacheStorage.entries.length < config.maxEntries) {query : OracleMachineQuery}
    (payload : List UInt8) {k : CacheKey} (hk : k ≠ createKey query) :
    (OracleCache.store clock config c query payload 0).cacheStorage.lookup k =
      c.cacheStorage.lookup k := by
  rw [storage_store henabled, AList.lookup_insert_ne hk, makeRoom_of_lt hroom]

/-- A store to a full cache removes the oldest entry, unless it has the key of
the store. -/
theorem lookup_store_of_full (henabled : config.enabled = true)
    (hfull : config.maxEntries ≤ c.cacheStorage.entries.length)
    {old : Sigma fun _ : CacheKey => CacheEntry}
    (hold : oldest CacheEntry.timeStamp c.cacheStorage = some old)
    {query : OracleMachineQuery} (payload : List UInt8) {k : CacheKey}
    (hk : k ≠ createKey query) :
    (OracleCache.store clock config c query payload 0).cacheStorage.lookup k =
      if k = old.1 then none else c.cacheStorage.lookup k := by
  rw [storage_store henabled, AList.lookup_insert_ne hk, storage_makeRoom_of_full hfull hold]
  by_cases heq : k = old.1
  · rw [if_pos heq, heq, AList.lookup_erase]
  · rw [if_neg heq, AList.lookup_erase_ne heq]

theorem notMem_of_nil (h : c.cacheStorage.entries = []) (key : CacheKey) :
    key ∉ c.cacheStorage := by
  rw [AList.mem_keys, AList.keys, h]
  exact List.not_mem_nil

/-- A store that finds room. -/
theorem storeFrame_of_lt (henabled : config.enabled = true)
    (hroom : c.cacheStorage.entries.length < config.maxEntries) (query : OracleMachineQuery)
    (payload : List UInt8) :
    StoreFrame config c (createKey query)
      (OracleCache.store clock config c query payload 0) where
  kept := fun _ _ hk => lookup_store_of_lt henabled hroom payload hk
  evicts := fun _ hfull => absurd hroom (Nat.not_lt.mpr hfull)

/-- A store to an empty cache, also to one that may have no entry. -/
theorem storeFrame_of_nil (hnil : c.cacheStorage.entries = []) (query : OracleMachineQuery)
    (payload : List UInt8) :
    StoreFrame config c (createKey query)
      (OracleCache.store clock config c query payload 0) where
  kept := by
    intro _ k hk
    by_cases henabled : config.enabled = true
    · rw [storage_store henabled, AList.lookup_insert_ne hk, storage_makeRoom_of_nil hnil]
    · rw [store_refused (fun h => henabled h.1)]
  evicts := fun _ _ hne => absurd hnil hne

/-- A store to a full cache. -/
theorem storeFrame_full_iff (henabled : config.enabled = true)
    (hfull : config.maxEntries ≤ c.cacheStorage.entries.length)
    {old : Sigma fun _ : CacheKey => CacheEntry}
    (hold : oldest CacheEntry.timeStamp c.cacheStorage = some old)
    (query : OracleMachineQuery) (payload : List UInt8) :
    StoreFrame config c (createKey query)
        (OracleCache.store clock config c query payload 0) ↔
      createKey query ∉ c.cacheStorage ∨ old.1 = createKey query := by
  obtain ⟨hmem, hle⟩ := oldest_le hold
  have hlookup : c.cacheStorage.lookup old.1 = some old.2 := AList.mem_lookup_iff.mpr hmem
  have hother : ∀ k, k ≠ createKey query →
      (OracleCache.store clock config c query payload 0).cacheStorage.lookup k =
        if k = old.1 then none else c.cacheStorage.lookup k :=
    fun k hk => lookup_store_of_full henabled hfull hold payload hk
  constructor
  · intro hframe
    by_cases hkey : createKey query ∈ c.cacheStorage
    · -- the oldest entry is gone, so it can only be the one that is replaced
      right
      by_contra hne
      have hsame := hframe.kept (.inl hkey) old.1 hne
      rw [hother old.1 hne, if_pos rfl, hlookup] at hsame
      simp at hsame
    · exact .inl hkey
  · intro hcond
    constructor
    · intro hneeds k hk
      rw [hother k hk]
      apply if_neg
      rcases hcond with habsent | hkey
      · rcases hneeds with hpresent | hroom
        · exact absurd hpresent habsent
        · omega
      · rw [hkey]
        exact hk
    · intro habsent _ _
      have hne : old.1 ≠ createKey query := by
        intro heq
        rw [← AList.lookup_eq_none, ← heq, hlookup] at habsent
        simp at habsent
      refine ⟨old, hmem, hle, ?_, ?_⟩
      · rw [hother old.1 hne, if_pos rfl]
      · intro k hk hkold
        rw [hother k hk, if_neg hkold]

/-- In every reachable state a store of a reply without an error flag meets
`StoreFrame` exactly when its key is not in the cache, or the cache is not full,
or the entry that `removeOldest` picks is the one under this key. -/
theorem store_frame_iff {ops : List Op} {s : State}
    (hrun : Runs (step clock config) anyStep (init clock) ops s)
    (query : OracleMachineQuery) (payload : List UInt8) :
    StoreFrame config s.cache (createKey query)
        (OracleCache.store clock config s.cache query payload 0) ↔
      createKey query ∉ s.cache.cacheStorage ∨
        s.cache.cacheStorage.entries.length < config.maxEntries ∨
        ∃ old, oldest CacheEntry.timeStamp s.cache.cacheStorage = some old ∧
          old.1 = createKey query := by
  by_cases hnil : s.cache.cacheStorage.entries = []
  · exact ⟨fun _ => .inl (notMem_of_nil hnil _), fun _ => storeFrame_of_nil hnil query payload⟩
  · have henabled : config.enabled = true := by
      by_contra hdisabled
      exact hnil (entries_of_disabled (Bool.not_eq_true _ ▸ hdisabled) hrun)
    obtain ⟨old, hold⟩ := exists_oldest CacheEntry.timeStamp hnil
    by_cases hroom : s.cache.cacheStorage.entries.length < config.maxEntries
    · exact ⟨fun _ => .inr (.inl hroom), fun _ => storeFrame_of_lt henabled hroom query payload⟩
    · rw [storeFrame_full_iff henabled (Nat.not_lt.mp hroom) hold query payload]
      simp [hroom, hold]

/-- A cache of two entries that is full. -/
def twoEntries : List Op := [.store ⟨5, 1, 0⟩ [42] 0, .store ⟨6, 1, 0⟩ [43] 0]

/-- The reply to a new query removes the oldest entry and nothing else. -/
theorem store_frame_iff_new_key :
    ∃ s : State, Runs (step ⟨id, monotone_id⟩ { maxEntries := 2 }) anyStep
        (init ⟨id, monotone_id⟩) twoEntries s ∧
      StoreFrame { maxEntries := 2 } s.cache ⟨7, 1⟩
        (OracleCache.store ⟨id, monotone_id⟩ { maxEntries := 2 } s.cache ⟨7, 1, 0⟩ [44] 0) := by
  have hrun : Runs (step ⟨id, monotone_id⟩ { maxEntries := 2 }) anyStep
      (init ⟨id, monotone_id⟩) twoEntries _ :=
    .cons trivial rfl (.cons trivial rfl (.nil _))
  exact ⟨_, hrun, (store_frame_iff hrun ⟨7, 1, 0⟩ [44]).mpr (.inl (by decide))⟩

/-- The same reply is stored again, as after two lookups that missed at the
same time: the other entry is gone. -/
theorem replacing_removes :
    ∃ s : State, Runs (step ⟨id, monotone_id⟩ { maxEntries := 2 }) anyStep
        (init ⟨id, monotone_id⟩) twoEntries s ∧
      s.cache.cacheStorage.lookup ⟨5, 1⟩ = some ⟨[42], 0, 1, 0⟩ ∧
      s.cache.cacheStorage.lookup ⟨6, 1⟩ = some ⟨[43], 0, 2, 0⟩ ∧
      (OracleCache.store ⟨id, monotone_id⟩ { maxEntries := 2 } s.cache
        ⟨6, 1, 0⟩ [43] 0).cacheStorage.lookup ⟨5, 1⟩ = none ∧
      ¬ StoreFrame { maxEntries := 2 } s.cache ⟨6, 1⟩
        (OracleCache.store ⟨id, monotone_id⟩ { maxEntries := 2 } s.cache ⟨6, 1, 0⟩ [43] 0) := by
  have hrun : Runs (step ⟨id, monotone_id⟩ { maxEntries := 2 }) anyStep
      (init ⟨id, monotone_id⟩) twoEntries _ :=
    .cons trivial rfl (.cons trivial rfl (.nil _))
  refine ⟨_, hrun, rfl, rfl, rfl, ?_⟩
  intro hframe
  have hkept := hframe.kept (.inl (by decide)) ⟨5, 1⟩ (by decide)
  revert hkept
  decide

end OracleMachine.Node.CacheCapacity
