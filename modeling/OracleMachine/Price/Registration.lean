import OracleMachine.Price.Klines
import OracleMachine.Price.PriceService

/-!
# Registered providers and the queries that reach them

`registerProvider` stores a provider under its oracle id in lower case.
`processInterfaceQuery` looks for the id of a query in lower case too, but puts
the two names of a combined oracle into alphabetical order first
(`normalizeOracleId`).  The registration does not do that.

`reachable_iff` says what follows: a provider gets the queries for its id
exactly when the id itself is in alphabetical order.  `processInterfaceQuery`
asks the provider that is reached (`Reachable.findProvider`).  All ids that the
constructor of the service registers are (`inOrder_constructor`), and its map is
the one of the model of queries (`route_constructor`).
-/

namespace OracleMachine.Price.Registration

open Lib.Decimal Lib.Text PriceService

variable {P : Type}

/-! ## The map of providers -/

/-- `registerProvider`: `_providers[lowerOracleId] = provider`. -/
def registerProvider (providers : List (Text × P)) (oracleId : Text) (provider : P) :
    List (Text × P) :=
  (toLower oracleId, provider) :: providers.filter fun entry => entry.1 ≠ toLower oracleId

/-- Registrations, one after the other. -/
def registerAll (registrations : List (Text × P)) : List (Text × P) :=
  registrations.foldl (fun providers entry => registerProvider providers entry.1 entry.2) []

theorem lookup_filter_ne {providers : List (Text × P)} {key other : Text} (hne : key ≠ other) :
    (providers.filter fun entry => entry.1 ≠ other).lookup key = providers.lookup key := by
  induction providers with
  | nil => rfl
  | cons entry providers ih =>
    by_cases hentry : entry.1 = other
    · have hkey : (key == entry.1) = false := by
        rw [hentry]
        exact beq_false_of_ne hne
      rw [List.filter_cons_of_neg (by simpa using hentry), ih, List.lookup_cons, hkey]
    · rw [List.filter_cons_of_pos (by simpa using hentry), List.lookup_cons, List.lookup_cons, ih]

/-- What is under a key after one registration. -/
theorem lookup_registerProvider (providers : List (Text × P)) (oracleId : Text) (provider : P)
    (key : Text) :
    (registerProvider providers oracleId provider).lookup key =
      if key = toLower oracleId then some provider else providers.lookup key := by
  rw [registerProvider, List.lookup_cons]
  by_cases hkey : key = toLower oracleId
  · rw [if_pos hkey, beq_iff_eq.mpr hkey]
  · rw [if_neg hkey, beq_false_of_ne hkey]
    exact lookup_filter_ne hkey

/-- A provider stays under its key until the key is registered again. -/
theorem lookup_registerAll (earlier later : List (Text × P)) (oracleId : Text) (p : P)
    (hlater : ∀ entry ∈ later, toLower entry.1 ≠ toLower oracleId) :
    (registerAll (earlier ++ (oracleId, p) :: later)).lookup (toLower oracleId) = some p := by
  have hloop (providers : List (Text × P)) (h : providers.lookup (toLower oracleId) = some p) :
      (later.foldl (fun providers entry => registerProvider providers entry.1 entry.2)
        providers).lookup (toLower oracleId) = some p := by
    induction later generalizing providers with
    | nil => exact h
    | cons entry later ih =>
      apply ih (fun e he => hlater e (List.mem_cons_of_mem entry he))
      rw [lookup_registerProvider, if_neg (hlater entry List.mem_cons_self).symm, h]
  rw [registerAll, List.foldl_append, List.foldl_cons]
  apply hloop
  rw [lookup_registerProvider, if_pos rfl]

/-- The constructor of the service registers the providers of the model. -/
theorem route_constructor (query : OracleQuery) :
    route (registerAll providers) query = route providers query := by
  have hmap : registerAll providers = providers.reverse := by decide +kernel
  rw [route, route, hmap]
  have hkeys : (providers.map Prod.fst).Nodup := by decide +kernel
  have hreverse : (providers.reverse.map Prod.fst).Nodup := by
    rw [List.map_reverse]
    exact List.nodup_reverse.mpr hkeys
  apply Option.ext
  intro source
  rw [lookup_eq_some_iff hreverse, lookup_eq_some_iff hkeys, List.mem_reverse]

/-! ## Oracle ids in order -/

/-- An id that a query can spell. -/
structure OracleId where
  text : Text
  length_le : text.length ≤ 32
  ascii : ∀ c ∈ text, c < 128
  no_nul : 0 ∉ text

/-- The text spells the id, in any mix of cases, or with its two names in the
other order. -/
def Spells (id text : Text) : Prop :=
  toLower text = toLower id ∨
    ∃ first second, 95 ∉ first ∧ 95 ∉ second ∧ id = first ++ 95 :: second ∧
      toLower text = toLower (second ++ 95 :: first)

/-- The name in front of the first `_` is not behind the rest in the order of
the alphabet. -/
def InOrder (text : Text) : Prop :=
  ∀ first second, text = first ++ 95 :: second → 95 ∉ first → ¬ second < first

theorem not_append_lt (as bs : Text) : ¬ as ++ bs < as := by
  induction as with
  | nil => exact List.not_lt_nil bs
  | cons a as ih =>
    rw [List.cons_append, List.cons_lt_cons_iff, not_or]
    exact ⟨UInt8.lt_irrefl a, fun h => ih h.2⟩

/-- Exchanging two names around `_` gives another text when they are not in
order. -/
theorem append_ne_of_lt {first second : Text} (hfirst : 95 ∉ first) (hlt : second < first) :
    second ++ 95 :: first ≠ first ++ 95 :: second := by
  intro heq
  rcases List.append_eq_append_iff.mp heq with ⟨rest, hrest, htail⟩ | ⟨rest, hrest, -⟩
  · cases rest with
    | nil =>
      rw [List.append_nil] at hrest
      rw [hrest] at hlt
      exact List.lt_irrefl second hlt
    | cons c rest =>
      -- the first `_` would be inside the first name
      have hc : 95 = c := (List.cons.inj htail).1
      rw [hrest, ← hc] at hfirst
      exact hfirst (by simp)
  · rw [hrest] at hlt
    exact not_append_lt first rest hlt

theorem normalizeOracleId_append {first : Text} (h : 95 ∉ first) (second : Text) :
    normalizeOracleId (first ++ 95 :: second) =
      if second < first then second ++ 95 :: first else first ++ 95 :: second := by
  rw [normalizeOracleId, cut_append h]

theorem normalizeOracleId_of_notMem {text : Text} (h : 95 ∉ text) :
    normalizeOracleId text = text := by
  rw [normalizeOracleId, cut_of_not_mem h]

/-- The order of two names does not matter. -/
theorem normalizeOracleId_swap {first second : Text} (h1 : 95 ∉ first) (h2 : 95 ∉ second) :
    normalizeOracleId (second ++ 95 :: first) = normalizeOracleId (first ++ 95 :: second) := by
  rw [normalizeOracleId_append h1, normalizeOracleId_append h2]
  by_cases hlt : second < first
  · rw [if_pos hlt, if_neg (List.lt_asymm hlt)]
  · by_cases hgt : first < second
    · rw [if_pos hgt, if_neg hlt]
    · rw [if_neg hgt, if_neg hlt, List.le_antisymm hlt hgt]

/-- Exactly the texts in order are left as they are. -/
theorem normalizeOracleId_eq_self_iff (text : Text) :
    normalizeOracleId text = text ↔ InOrder text := by
  by_cases hmem : 95 ∈ text
  · obtain ⟨first, second, rfl, hfirst⟩ := List.eq_append_cons_of_mem hmem
    rw [normalizeOracleId_append hfirst]
    constructor
    · intro heq a b hsplit ha hlt
      -- the two splits at the first `_` agree
      have hcut := cut_append ha b
      rw [← hsplit, cut_append hfirst] at hcut
      cases hcut
      rw [if_pos hlt] at heq
      exact append_ne_of_lt hfirst hlt heq
    · intro horder
      rw [if_neg (horder first second rfl hfirst)]
  · refine iff_of_true (normalizeOracleId_of_notMem hmem) ?_
    intro first second heq _ _
    exact hmem (heq ▸ by simp)

theorem toLower_append (as bs : Text) : toLower (as ++ bs) = toLower as ++ toLower bs :=
  List.map_append

theorem notMem_toLower {text : Text} (h : 95 ∉ text) : 95 ∉ toLower text := by
  intro hmem
  obtain ⟨c, hc, heq⟩ := List.mem_map.mp hmem
  by_cases hupper : (65 ≤ c && c ≤ 90) = true
  · -- an upper case letter becomes a letter
    rw [if_pos hupper] at heq
    rw [Bool.and_eq_true, decide_eq_true_eq, decide_eq_true_eq, UInt8.le_iff_toNat_le,
      UInt8.le_iff_toNat_le] at hupper
    have hsum := congrArg UInt8.toNat heq
    rw [UInt8.toNat_add] at hsum
    change 65 ≤ c.toNat ∧ c.toNat ≤ 90 at hupper
    change (c.toNat + 32) % 2 ^ 8 = 95 at hsum
    omega
  · rw [if_neg hupper] at heq
    exact h (heq ▸ hc)

/-- Every spelling of an id is looked up under the same key. -/
theorem normalizeOracleId_of_spells {id text : Text} (h : Spells id text) :
    normalizeOracleId (toLower text) = normalizeOracleId (toLower id) := by
  rcases h with heq | ⟨first, second, hfirst, hsecond, rfl, heq⟩
  · rw [heq]
  · rw [heq, toLower_append, toLower_append]
    exact normalizeOracleId_swap (notMem_toLower hfirst) (notMem_toLower hsecond)

/-! ## Reaching a provider -/

/-- After a registration, whatever was registered before, and as long as no id
that names the same sources is registered again, every query whose oracle field
spells the id is routed to the provider. -/
def Reachable (id : OracleId) (p : P) : Prop :=
  ∀ earlier later : List (Text × P), (∀ entry ∈ later, ¬ Spells id.text entry.1) →
    ∀ query : OracleQuery, query.oracle.length = 32 →
      Spells id.text (bytesToString query.oracle 32) →
      route (registerAll (earlier ++ (id.text, p) :: later)) query = some p

/-- `processInterfaceQuery` turns to a provider that is reachable. -/
theorem Reachable.findProvider {id : OracleId} {p : P} (h : Reachable id p)
    {earlier later : List (Text × P)} (hlater : ∀ entry ∈ later, ¬ Spells id.text entry.1)
    {I : Interface} {queryPayload : List UInt8} (hsize : I.querySize ≤ queryPayload.length)
    (hlength : (I.oracleQuery queryPayload).oracle.length = 32)
    (hspells : Spells id.text (bytesToString (I.oracleQuery queryPayload).oracle 32)) :
    findProvider I (registerAll (earlier ++ (id.text, p) :: later)) queryPayload =
      .ok (p, I.oracleQuery queryPayload) :=
  findProvider_eq_ok_iff.mpr ⟨hsize, rfl, h earlier later hlater _ hlength hspells⟩

/-- A query whose oracle field is the id, filled up with zeros. -/
def OracleId.query (id : OracleId) : OracleQuery where
  oracle := id.text ++ List.replicate (32 - id.text.length) 0
  timestamp := .zero
  currency1 := []
  currency2 := []

theorem OracleId.length_query (id : OracleId) : id.query.oracle.length = 32 := by
  have hle := id.length_le
  rw [query, List.length_append, List.length_replicate]
  omega

theorem OracleId.bytesToString_query (id : OracleId) :
    bytesToString id.query.oracle 32 = id.text := by
  have hchars : ∀ c ∈ id.text, decide (c ≠ 0) = true := by
    intro c hc
    exact decide_eq_true fun hzero => id.no_nul (hzero ▸ hc)
  rw [bytesToString, List.take_of_length_le (by rw [id.length_query]), query,
    List.takeWhile_append_of_pos hchars]
  cases 32 - id.text.length with
  | zero => exact List.append_nil _
  | succ n => rw [List.replicate_succ, List.takeWhile_cons_of_neg (by decide), List.append_nil]

/-- A provider is reached under its id exactly when the id in lower case has
its names in alphabetical order. -/
theorem reachable_iff (id : OracleId) (p : P) : Reachable id p ↔ InOrder (toLower id.text) := by
  rw [← normalizeOracleId_eq_self_iff]
  constructor
  · intro h
    by_contra hne
    -- the only provider is under the key as registered
    have hroute := h [] [] (fun entry hmem => absurd hmem List.not_mem_nil) id.query
      id.length_query (by rw [id.bytesToString_query]; exact .inl rfl)
    rw [route, id.bytesToString_query, List.nil_append, registerAll, List.foldl_cons,
      List.foldl_nil, lookup_registerProvider, if_neg hne] at hroute
    cases hroute
  · intro hkey earlier later hlater query _ hspells
    rw [route, normalizeOracleId_of_spells hspells, hkey]
    apply lookup_registerAll
    intro entry hmem heq
    exact hlater entry hmem (.inl heq)

/-- The ids of the constructor are in order. -/
theorem inOrder_constructor : ∀ entry ∈ providers, InOrder (toLower entry.1) := by
  have hkeys : ∀ entry ∈ providers,
      normalizeOracleId (toLower entry.1) = toLower entry.1 := by decide +kernel
  intro entry hmem
  exact (normalizeOracleId_eq_self_iff _).mp (hkeys entry hmem)

/-- MEXC before Binance. -/
def mexcBinance : OracleId where
  text := ascii "mexc_binance"
  length_le := by decide
  ascii := by decide +kernel
  no_nul := by decide +kernel

/-- A provider registered as `mexc_binance` does not get the queries for
`mexc_binance`: without others there is none for them, and in the service they
go to the provider of `binance_mexc`. -/
theorem mexcBinance_unreachable :
    ¬ Reachable mexcBinance Source.mock ∧
    Spells mexcBinance.text (bytesToString mexcBinance.query.oracle 32) ∧
    route (registerAll [(mexcBinance.text, Source.mock)]) mexcBinance.query = none ∧
    route (registerAll (providers ++ [(mexcBinance.text, Source.mock)])) mexcBinance.query =
      some (.exchanges [3, 4]) := by
  have hnone : route (registerAll [(mexcBinance.text, Source.mock)]) mexcBinance.query = none := by
    decide +kernel
  have hspells : Spells mexcBinance.text (bytesToString mexcBinance.query.oracle 32) :=
    .inl (by decide +kernel)
  refine ⟨?_, hspells, hnone, by decide +kernel⟩
  intro h
  have hroute := h [] [] (fun entry hmem => absurd hmem List.not_mem_nil) mexcBinance.query
    (by decide +kernel) hspells
  rw [List.nil_append, hnone] at hroute
  cases hroute

end OracleMachine.Price.Registration
