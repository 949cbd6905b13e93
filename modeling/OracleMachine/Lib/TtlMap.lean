import OracleMachine.Lib.TimedMap

/-!
# Maps with a time to live

A map with a time to live is meant to answer with the last value that was put under a key,
as long as it is younger than the time to live.  `Plain` is this map, with nothing to clean
up: it keeps every value with the time at which it was put.

A program keeps fewer entries, and drops expired ones when it comes across them.  `Refines`
relates its map to the plain one.  The two agree on every entry that the program has, and a
value that the program has dropped is expired.  There is one lemma for each operation of the
program:

* `Refines.put` and `Refines.drop` for operations of the plain map;
* `Refines.sweep`, `Refines.erase`, `Refines.touch` and `Refines.perm` for what the program
  does on its own, which the plain map does not see;
* `Refines.get_of_some` and `Refines.get_of_none` for the answer.
-/

namespace OracleMachine.Lib.TtlMap

open TimedMap

variable {K V E : Type} [DecidableEq K]

/-- The last value under each key, with its time. -/
abbrev Plain (K V : Type) := K → Option (V × Nat)

namespace Plain

/-- Nothing was put yet. -/
def empty : Plain K V := fun _ => none

/-- Put a value under a key. -/
def put (a : Plain K V) (k : K) (v : V) (t : Nat) : Plain K V :=
  fun k' => if k' = k then some (v, t) else a k'

/-- Forget some keys. -/
def drop (a : Plain K V) (p : K → Bool) : Plain K V := fun k => if p k then none else a k

/-- The value under a key at a time. -/
def get (ttl : Nat) (a : Plain K V) (k : K) (t : Nat) : Option V :=
  match a k with
  | some (v, s) => if t - s < ttl then some v else none
  | none => none

end Plain

/-- The map of a program at the time `now`.  `view` takes the value and its time from an
entry. -/
def Refines (view : E → V × Nat) (ttl now : Nat) (m : Map K E) (a : Plain K V) : Prop :=
  ∀ k,
    match m.lookup k with
    | some e => a k = some (view e)
    | none => ∀ v s, a k = some (v, s) → ttl ≤ now - s

namespace Refines

variable {view : E → V × Nat} {ttl now : Nat} {m : Map K E} {a : Plain K V}

theorem of_some (h : Refines view ttl now m a) {k : K} {e : E} (he : m.lookup k = some e) :
    a k = some (view e) := by
  have hk := h k
  rwa [he] at hk

theorem of_none (h : Refines view ttl now m a) {k : K} (hnone : m.lookup k = none) {v : V}
    {s : Nat} (hput : a k = some (v, s)) : ttl ≤ now - s := by
  have hk := h k
  rw [hnone] at hk
  exact hk v s hput

/-- The two cases of the definition prove it. -/
theorem intro (hsome : ∀ k e, m.lookup k = some e → a k = some (view e))
    (hnone : ∀ k v s, m.lookup k = none → a k = some (v, s) → ttl ≤ now - s) :
    Refines view ttl now m a := by
  intro k
  cases hk : m.lookup k with
  | some e => exact hsome k e hk
  | none => exact fun v s => hnone k v s hk

theorem empty : Refines view ttl now (∅ : Map K E) (Plain.empty : Plain K V) :=
  fun _ => by
    rw [AList.lookup_empty]
    intro v s h
    cases h

/-- What is expired stays expired. -/
theorem mono (h : Refines view ttl now m a) {later : Nat} (hle : now ≤ later) :
    Refines view ttl later m a := by
  refine intro (fun k e he => h.of_some he) fun k v s hnone hput => ?_
  have hexpired := h.of_none hnone hput
  omega

/-- A map with the same entries in another order. -/
theorem perm (h : Refines view ttl now m a) {m' : Map K E} (hperm : m'.entries.Perm m.entries) :
    Refines view ttl now m' a := by
  intro k
  rw [AList.perm_lookup hperm]
  exact h k

/-- A walk may erase entries that are expired at its readings of the clock. -/
theorem sweep (h : Refines view ttl now m a) {test : Nat → K → E → Bool} {read : Nat → Nat}
    {later : Nat} (hlater : now ≤ later) (hread : ∀ i < m.entries.length, read i ≤ later)
    (htest : ∀ i k e, test i k e = true → ttl ≤ read i - (view e).2) :
    Refines view ttl later (TimedMap.sweep test m) a := by
  refine intro (fun k e he => ?_) fun k v s hnone hput => ?_
  · rcases lookup_sweep_cases test m k with hsame | ⟨hgone, -⟩
    · exact h.of_some (hsame ▸ he)
    · rw [hgone] at he
      cases he
  · rcases lookup_sweep_cases test m k with hsame | ⟨-, i, e, hi, he, hpicked⟩
    · have hexpired := h.of_none (hsame ▸ hnone) hput
      omega
    · have hview := h.of_some he
      rw [hput, Option.some.injEq] at hview
      have hexpired := htest i k e hpicked
      have hle := hread i hi
      rw [← hview] at hexpired
      omega

/-- An entry that is expired may be erased. -/
theorem erase (h : Refines view ttl now m a) {k : K} {e : E} (he : m.lookup k = some e)
    (hexpired : ttl ≤ now - (view e).2) : Refines view ttl now (m.erase k) a := by
  refine intro (fun k' e' he' => ?_) fun k' v s hnone hput => ?_
  · by_cases hk : k' = k
    · rw [hk, AList.lookup_erase] at he'
      cases he'
    · rw [AList.lookup_erase_ne hk] at he'
      exact h.of_some he'
  · by_cases hk : k' = k
    · rw [hk, h.of_some he, Option.some.injEq] at hput
      rwa [hput] at hexpired
    · rw [AList.lookup_erase_ne hk] at hnone
      exact h.of_none hnone hput

/-- An entry may be replaced by one with the same value and time. -/
theorem touch (h : Refines view ttl now m a) {k : K} {e e' : E} (he : m.lookup k = some e)
    (hview : view e' = view e) : Refines view ttl now (m.insert k e') a := by
  refine intro (fun k' e₁ he₁ => ?_) fun k' v s hnone hput => ?_
  · by_cases hk : k' = k
    · rw [hk, AList.lookup_insert, Option.some.injEq] at he₁
      rw [hk, ← he₁, hview]
      exact h.of_some he
    · rw [AList.lookup_insert_ne hk] at he₁
      exact h.of_some he₁
  · by_cases hk : k' = k
    · rw [hk, AList.lookup_insert] at hnone
      cases hnone
    · rw [AList.lookup_insert_ne hk] at hnone
      exact h.of_none hnone hput

/-- A new value. -/
theorem put (h : Refines view ttl now m a) (k : K) {e : E} {v : V} {t : Nat}
    (hview : view e = (v, t)) : Refines view ttl now (m.insert k e) (a.put k v t) := by
  refine intro (fun k' e' he' => ?_) fun k' v' s hnone hput => ?_
  · by_cases hk : k' = k
    · rw [hk, AList.lookup_insert, Option.some.injEq] at he'
      rw [Plain.put, if_pos hk, ← he', hview]
    · rw [AList.lookup_insert_ne hk] at he'
      rw [Plain.put, if_neg hk]
      exact h.of_some he'
  · by_cases hk : k' = k
    · rw [hk, AList.lookup_insert] at hnone
      cases hnone
    · rw [AList.lookup_insert_ne hk] at hnone
      rw [Plain.put, if_neg hk] at hput
      exact h.of_none hnone hput

/-- Keys are forgotten. -/
theorem drop (h : Refines view ttl now m a) (p : K → Bool) :
    Refines view ttl now (TimedMap.sweep (fun _ key _ => p key) m) (a.drop p) := by
  refine intro (fun k e he => ?_) fun k v s hnone hput => ?_
  · rw [lookup_sweep_key] at he
    by_cases hp : p k = true
    · rw [if_pos hp] at he
      cases he
    · rw [if_neg hp] at he
      rw [Plain.drop, if_neg hp]
      exact h.of_some he
  · rw [lookup_sweep_key] at hnone
    by_cases hp : p k = true
    · rw [Plain.drop, if_pos hp] at hput
      cases hput
    · rw [if_neg hp] at hnone
      rw [Plain.drop, if_neg hp] at hput
      exact h.of_none hnone hput

/-- A key that the program has is answered by the age of its entry. -/
theorem get_of_some (h : Refines view ttl now m a) {k : K} {e : E} (he : m.lookup k = some e)
    (t : Nat) : a.get ttl k t = if t - (view e).2 < ttl then some (view e).1 else none := by
  rw [Plain.get, h.of_some he]

/-- A key that the program does not have is not answered from now on. -/
theorem get_of_none (h : Refines view ttl now m a) {k : K} (hnone : m.lookup k = none)
    {t : Nat} (hle : now ≤ t) : a.get ttl k t = none := by
  rw [Plain.get]
  cases hput : a k with
  | none => rfl
  | some p =>
    have hexpired := h.of_none hnone hput
    exact if_neg (by omega)

end Refines

end OracleMachine.Lib.TtlMap
