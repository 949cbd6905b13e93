import Mathlib.Data.List.AList
import Mathlib.Order.Monotone.Basic

/-!
# Hash maps walked by a clock

The state of a cache with a time to live: a map from keys to values, and a
clock that is read again and again.

* `Clock` is the sequence of readings that a program takes of a clock that
  never goes back.  A program reads it by index: its first reading, its second
  reading, and so on.
* `Map` is a hash map.  The order of the entries is the order in which the
  program walks over them.
* `sweep` is the loop that walks over a map and erases what a test picks.  The
  test sees how many entries were walked before, so that it can read the clock
  once per entry.
* `oldest` is the loop that looks for the entry with the least time stamp.

What an operation leaves in a map is stated about the entries: `mem_sweep`,
`mem_erase` and `mem_insert`.  What a walk does to one key is
`lookup_sweep_cases`.  How many entries there are afterwards is
`length_sweep_le`, `length_erase_lt` and `length_insert_le`, and `oldest_le`
says that the entry with the least time stamp is found.
-/

namespace OracleMachine.Lib.TimedMap

/-- The readings of a clock that never goes back. -/
structure Clock where
  read : Nat → Nat
  mono : Monotone read

/-- A hash map with its order of iteration. -/
abbrev Map (K V : Type) := AList (fun _ : K => V)

variable {K V : Type}

/-- The entries that a walk keeps, the first of them being the entry number
`i`. -/
def sweepFrom (drop : Nat → K → V → Bool) :
    Nat → List (Sigma fun _ : K => V) → List (Sigma fun _ : K => V)
  | _, [] => []
  | i, e :: es =>
    if drop i e.1 e.2 then sweepFrom drop (i + 1) es
    else e :: sweepFrom drop (i + 1) es

theorem sweepFrom_sublist (drop : Nat → K → V → Bool) (i : Nat)
    (es : List (Sigma fun _ : K => V)) : (sweepFrom drop i es).Sublist es := by
  induction es generalizing i with
  | nil => exact List.Sublist.slnil
  | cons e es ih =>
    rw [sweepFrom]
    split
    · exact (ih (i + 1)).cons e
    · exact (ih (i + 1)).cons_cons e

/-- Walk over a map and erase the entries that `drop` picks. -/
def sweep (drop : Nat → K → V → Bool) (m : Map K V) : Map K V where
  entries := sweepFrom drop 0 m.entries
  nodupKeys := m.nodupKeys.sublist (sweepFrom_sublist drop 0 m.entries)

/-- A walk adds no entry. -/
theorem mem_sweep {drop : Nat → K → V → Bool} {m : Map K V} {e : Sigma fun _ : K => V}
    (h : e ∈ (sweep drop m).entries) : e ∈ m.entries :=
  (sweepFrom_sublist drop 0 m.entries).subset h

/-- The first entry with the least time stamp, if there is an entry. -/
def oldest (time : V → Nat) (m : Map K V) : Option (Sigma fun _ : K => V) :=
  match m.entries with
  | [] => none
  | e :: es => some (es.foldl (fun old e => if time e.2 < time old.2 then e else old) e)

theorem length_sweep_le (drop : Nat → K → V → Bool) (m : Map K V) :
    (sweep drop m).entries.length ≤ m.entries.length :=
  (sweepFrom_sublist drop 0 m.entries).length_le

/-- The search ends with an entry that it has seen, and with the least one. -/
theorem foldl_oldest_le (time : V → Nat) (es : List (Sigma fun _ : K => V))
    (old : Sigma fun _ : K => V) :
    es.foldl (fun old e => if time e.2 < time old.2 then e else old) old ∈ old :: es ∧
      ∀ e ∈ old :: es,
        time (es.foldl (fun old e => if time e.2 < time old.2 then e else old) old).2 ≤
          time e.2 := by
  induction es generalizing old with
  | nil => simp
  | cons d es ih =>
    rw [List.foldl_cons]
    obtain ⟨hmem, hle⟩ := ih (if time d.2 < time old.2 then d else old)
    have hnext := hle _ List.mem_cons_self
    constructor
    · rcases List.mem_cons.mp hmem with heq | hmem
      · rw [heq]
        split <;> simp
      · exact List.mem_cons_of_mem _ (List.mem_cons_of_mem _ hmem)
    · intro e he
      rcases List.mem_cons.mp he with rfl | he
      · apply Nat.le_trans hnext
        split <;> omega
      · rcases List.mem_cons.mp he with rfl | he
        · apply Nat.le_trans hnext
          split <;> omega
        · exact hle e (List.mem_cons_of_mem _ he)

/-- The oldest entry is in the map, and no entry is older. -/
theorem oldest_le {time : V → Nat} {m : Map K V} {old : Sigma fun _ : K => V}
    (h : oldest time m = some old) :
    old ∈ m.entries ∧ ∀ e ∈ m.entries, time old.2 ≤ time e.2 := by
  unfold oldest at h
  cases hentries : m.entries with
  | nil => simp [hentries] at h
  | cons e es =>
    rw [hentries] at h
    rw [← Option.some.inj h]
    exact foldl_oldest_le time es e

/-- A map with an entry has an oldest one. -/
theorem exists_oldest (time : V → Nat) {m : Map K V} (h : m.entries ≠ []) :
    ∃ old, oldest time m = some old := by
  unfold oldest
  cases hentries : m.entries with
  | nil => exact absurd hentries h
  | cons e es => exact ⟨_, rfl⟩

/-- A walk keeps an entry, or its test picks it when the walk comes to it. -/
theorem mem_sweepFrom_or {drop : Nat → K → V → Bool} {i : Nat}
    {es : List (Sigma fun _ : K => V)} {e : Sigma fun _ : K => V} (h : e ∈ es) :
    e ∈ sweepFrom drop i es ∨ ∃ j, j < es.length ∧ drop (i + j) e.1 e.2 = true := by
  induction es generalizing i with
  | nil => exact absurd h List.not_mem_nil
  | cons d es ih =>
    rw [sweepFrom]
    rcases List.mem_cons.mp h with rfl | hmem
    · by_cases hdrop : drop i e.1 e.2 = true
      · exact .inr ⟨0, by simp, hdrop⟩
      · rw [if_neg hdrop]
        exact .inl List.mem_cons_self
    · rcases @ih (i + 1) hmem with hkept | ⟨j, hj, hdrop⟩
      · refine .inl ?_
        split
        · exact hkept
        · exact List.mem_cons_of_mem d hkept
      · refine .inr ⟨j + 1, by simpa using hj, ?_⟩
        rwa [show i + (j + 1) = i + 1 + j by omega]

theorem not_of_mem_sweepFrom {p : K → Bool} {i : Nat} {es : List (Sigma fun _ : K => V)}
    {e : Sigma fun _ : K => V} (h : e ∈ sweepFrom (fun _ key _ => p key) i es) :
    ¬ p e.1 = true := by
  induction es generalizing i with
  | nil => exact absurd h List.not_mem_nil
  | cons d es ih =>
    rw [sweepFrom] at h
    by_cases hd : p d.1 = true
    · rw [if_pos hd] at h
      exact ih h
    · rw [if_neg hd] at h
      rcases List.mem_cons.mp h with rfl | hmem
      · exact hd
      · exact ih hmem

variable [DecidableEq K]

/-- A walk leaves a key as it is, or its test picks the entry of the key. -/
theorem lookup_sweep_cases (drop : Nat → K → V → Bool) (m : Map K V) (k : K) :
    (sweep drop m).lookup k = m.lookup k ∨
      ((sweep drop m).lookup k = none ∧
        ∃ i v, i < m.entries.length ∧ m.lookup k = some v ∧ drop i k v = true) := by
  have hsub : ∀ v, (sweep drop m).lookup k = some v → m.lookup k = some v := by
    intro v hv
    exact AList.mem_lookup_iff.mpr (mem_sweep (AList.mem_lookup_iff.mp hv))
  cases hs : (sweep drop m).lookup k with
  | some v => exact .inl (hsub v hs).symm
  | none =>
    cases hm : m.lookup k with
    | none => exact .inl rfl
    | some v =>
      refine .inr ⟨rfl, ?_⟩
      rcases @mem_sweepFrom_or _ _ drop 0 m.entries ⟨k, v⟩ (AList.mem_lookup_iff.mp hm) with
        hkept | ⟨i, hi, hdrop⟩
      · have hkept' : (sweep drop m).lookup k = some v := AList.mem_lookup_iff.mpr hkept
        rw [hs] at hkept'
        cases hkept'
      · rw [Nat.zero_add] at hdrop
        exact ⟨i, v, hi, rfl, hdrop⟩

/-- A walk whose test looks at the keys only. -/
theorem lookup_sweep_key (p : K → Bool) (m : Map K V) (k : K) :
    (sweep (fun _ key _ => p key) m).lookup k = if p k then none else m.lookup k := by
  by_cases hp : p k = true
  · rw [if_pos hp]
    cases hs : (sweep (fun _ key _ => p key) m).lookup k with
    | none => rfl
    | some v =>
      exact absurd hp (not_of_mem_sweepFrom (AList.mem_lookup_iff.mp hs))
  · rw [if_neg hp]
    rcases lookup_sweep_cases (fun _ key _ => p key) m k with h | ⟨-, i, v, -, -, hdrop⟩
    · exact h
    · exact absurd hdrop hp

/-- Erasing adds no entry. -/
theorem mem_erase {m : Map K V} {k : K} {e : Sigma fun _ : K => V}
    (h : e ∈ (m.erase k).entries) : e ∈ m.entries :=
  (List.kerase_sublist k m.entries).subset h

/-- Inserting adds one entry. -/
theorem mem_insert {m : Map K V} {k : K} {v : V} {e : Sigma fun _ : K => V}
    (h : e ∈ (m.insert k v).entries) : e = ⟨k, v⟩ ∨ e ∈ m.entries := by
  rw [AList.entries_insert, List.mem_cons] at h
  exact h.imp_right fun he => (List.kerase_sublist k m.entries).subset he

theorem length_erase_le (m : Map K V) (k : K) :
    (m.erase k).entries.length ≤ m.entries.length :=
  (List.kerase_sublist k m.entries).length_le

/-- Erasing an entry makes room for one. -/
theorem length_erase_lt {m : Map K V} {e : Sigma fun _ : K => V} (h : e ∈ m.entries) :
    (m.erase e.1).entries.length < m.entries.length := by
  show (List.eraseP (fun s => e.1 = s.1) m.entries).length < m.entries.length
  rw [List.length_eraseP_of_mem h (by simp)]
  have hpos := List.length_pos_of_mem h
  omega

theorem length_insert_le (m : Map K V) (k : K) (v : V) :
    (m.insert k v).entries.length ≤ m.entries.length + 1 := by
  rw [AList.entries_insert, List.length_cons]
  exact Nat.succ_le_succ (length_erase_le m k)

/-- Inserting under a key that is there takes no room. -/
theorem length_insert_of_mem {m : Map K V} {e : Sigma fun _ : K => V} (h : e ∈ m.entries)
    (v : V) : (m.insert e.1 v).entries.length ≤ m.entries.length := by
  rw [AList.entries_insert, List.length_cons]
  exact length_erase_lt h

end OracleMachine.Lib.TimedMap
