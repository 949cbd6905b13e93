import Mathlib.Algebra.Ring.Nat
import Mathlib.Data.List.Basic

/-!
# Lists with one entry changed

A table of records is a list whose entries are known by their index.  A step of
a system changes one entry or appends one.  These lemmas say what a lookup
gives afterwards, also through a partial projection `f` of the records.
-/

namespace OracleMachine.Lib.Entries

variable {α β : Type}

/-- What `f` reads after a change of an entry. -/
theorem bind_set_apply {l : List α} {i : Nat} {a b : α} (ha : l[i]? = some a)
    (f : α → Option β) (j : Nat) :
    (l.set i b)[j]?.bind f = if j = i then f b else l[j]?.bind f := by
  by_cases hj : j = i
  · rw [if_pos hj, hj, List.getElem?_set_self (List.getElem?_eq_some_iff.mp ha).1,
      Option.bind_some]
  · rw [if_neg hj, List.getElem?_set_ne (Ne.symm hj)]

/-- A change of an entry that keeps what `f` reads keeps it for the list. -/
theorem bind_set {l : List α} {i : Nat} {a b : α} (ha : l[i]? = some a)
    {f : α → Option β} (hf : f b = f a) (j : Nat) : (l.set i b)[j]?.bind f = l[j]?.bind f := by
  rw [bind_set_apply ha]
  by_cases hj : j = i
  · rw [if_pos hj, hj, ha, Option.bind_some, hf]
  · rw [if_neg hj]

/-- A new entry at the end is the only one that a list gains. -/
theorem getElem?_concat {l : List α} {a b : α} {j : Nat} :
    (l ++ [a])[j]? = some b ↔ l[j]? = some b ∨ j = l.length ∧ a = b := by
  rcases Nat.lt_trichotomy j l.length with hj | rfl | hj
  · rw [List.getElem?_append_left hj]
    simp [Nat.ne_of_lt hj]
  · simp
  · rw [List.getElem?_eq_none (by simp; omega), List.getElem?_eq_none (by omega)]
    simp
    omega

theorem bind_concat {l : List α} {a : α} {f : α → Option β} {j : Nat} {b : β} :
    (l ++ [a])[j]?.bind f = some b ↔
      l[j]?.bind f = some b ∨ j = l.length ∧ f a = some b := by
  simp only [Option.bind_eq_some_iff, getElem?_concat]
  constructor
  · rintro ⟨c, hc | ⟨hj, rfl⟩, hf⟩
    · exact .inl ⟨c, hc, hf⟩
    · exact .inr ⟨hj, hf⟩
  · rintro (⟨c, hc, hf⟩ | ⟨hj, hf⟩)
    · exact ⟨c, .inl hc, hf⟩
    · exact ⟨a, .inr ⟨hj, rfl⟩, hf⟩

/-- A lookup in a list with one changed entry. -/
theorem getElem?_set_cases {l : List α} {i j : Nat} {a b : α}
    (h : (l.set i a)[j]? = some b) : j = i ∧ b = a ∨ j ≠ i ∧ l[j]? = some b := by
  by_cases hj : j = i
  · subst hj
    have hlt : j < l.length := by simpa using (List.getElem?_eq_some_iff.mp h).1
    rw [List.getElem?_set_self hlt] at h
    exact .inl ⟨rfl, (Option.some.inj h).symm⟩
  · rw [List.getElem?_set_ne (Ne.symm hj)] at h
    exact .inr ⟨hj, h⟩

/-- An entry has its changed value, or is as before. -/
theorem exists_getElem?_set {l : List α} {i j : Nat} {a b : α} (hb : l[j]? = some b)
    {p : α → Prop} (hp : p b) (ha : l[i]? = some b → p a) :
    ∃ b', (l.set i a)[j]? = some b' ∧ p b' := by
  by_cases hj : j = i
  · subst hj
    exact ⟨a, List.getElem?_set_self (List.getElem?_eq_some_iff.mp hb).1, ha hb⟩
  · exact ⟨b, (List.getElem?_set_ne (Ne.symm hj)).trans hb, hp⟩

/-- An index that is in use stays in use. -/
theorem used_set {l : List α} {j : Nat} {b : α} (hb : l[j]? = some b) (i : Nat) (a : α) :
    ∃ b', (l.set i a)[j]? = some b' := by
  have hlt : j < (l.set i a).length := by
    rw [List.length_set]
    exact (List.getElem?_eq_some_iff.mp hb).1
  exact ⟨_, List.getElem?_eq_getElem hlt⟩

/-- An entry that is set to what it is. -/
theorem set_self {l : List α} {i : Nat} {a : α} (ha : l[i]? = some a) : l.set i a = l := by
  obtain ⟨hlt, rfl⟩ := List.getElem?_eq_some_iff.mp ha
  exact List.set_getElem_self hlt

/-- A sum over the entries after a change of one of them. -/
theorem sum_map_set {l : List α} {i : Nat} {a : α} (ha : l[i]? = some a) (f : α → Nat) (b : α) :
    ((l.set i b).map f).sum + f a = (l.map f).sum + f b := by
  induction l generalizing i with
  | nil => simp at ha
  | cons x l ih =>
    cases i with
    | zero =>
      rw [List.getElem?_cons_zero] at ha
      obtain rfl := Option.some.inj ha
      simp only [List.set_cons_zero, List.map_cons, List.sum_cons]
      omega
    | succ i =>
      have hrest := ih (List.getElem?_cons_succ ▸ ha)
      simp only [List.set_cons_succ, List.map_cons, List.sum_cons]
      omega

end OracleMachine.Lib.Entries
