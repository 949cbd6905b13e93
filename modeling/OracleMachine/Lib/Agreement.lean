import Mathlib.Data.List.Basic

/-!
# Agreement of a list of sources

A loop asks every source of a list in order.  It stops without a result when a
source does not answer, or when it answers something else than the first source
did.  Each answer may be looked at once more by the source that gave it, which
confirms it, does not confirm it, or fails.

`agree` is the loop.  `agree_eq_some_iff` says what its result stands for: every
source has given this answer and looked at it, and the flag tells whether all of
them have confirmed it.  `agree_eq_of_mem_iff` follows from it: when the answers
do not depend on the place of a source, the result depends on the set of the
sources only.
-/

namespace OracleMachine.Lib.Agreement

variable {σ α : Type} [DecidableEq α]

section Loop

variable (ask : Nat → σ → Option α) (confirm : Nat → σ → α → Option Bool)

/-- The loop behind the first source, which has answered `answer`.  The next
source has the number `i`. -/
def agreeLoop (answer : α) : Nat → Bool → List σ → Option Bool
  | _, confirmed, [] => some confirmed
  | i, confirmed, source :: sources =>
    match ask i source with
    | none => none
    | some one =>
      if one ≠ answer then none
      else
        match confirm i source one with
        | none => none
        | some ok => agreeLoop answer (i + 1) (confirmed && ok) sources

/-- Ask all sources.  Without a source there is no answer. -/
def agree (sources : List σ) : Option (α × Bool) :=
  match sources with
  | [] => none
  | source :: sources =>
    match ask 0 source with
    | none => none
    | some answer =>
      match confirm 0 source answer with
      | none => none
      | some ok =>
        (agreeLoop ask confirm answer 1 ok sources).map fun confirmed => (answer, confirmed)

/-- Every source of the list, counted from `i`, has given this answer and has
looked at it. -/
def Unanimous (i : Nat) (sources : List σ) (answer : α) : Prop :=
  ∀ k source, sources[k]? = some source →
    ask (i + k) source = some answer ∧ ∃ ok, confirm (i + k) source answer = some ok

/-- Every source of the list, counted from `i`, has confirmed this answer. -/
def Confirmed (i : Nat) (sources : List σ) (answer : α) : Prop :=
  ∀ k source, sources[k]? = some source → confirm (i + k) source answer = some true

end Loop

variable {ask : Nat → σ → Option α} {confirm : Nat → σ → α → Option Bool}

/-- What holds of the elements of a list, counted from `i`, holds of the first
one and of the others, counted from `i + 1`. -/
theorem forall_getElem?_cons (P : Nat → σ → Prop) {i : Nat} {source : σ} {sources : List σ} :
    (∀ k other, (source :: sources)[k]? = some other → P (i + k) other) ↔
      P i source ∧ ∀ k other, sources[k]? = some other → P (i + 1 + k) other := by
  refine ⟨fun h => ⟨h 0 source rfl, fun k other hk => ?_⟩, ?_⟩
  · have hother := h (k + 1) other hk
    rwa [show i + (k + 1) = i + 1 + k by omega] at hother
  · rintro ⟨hfirst, hrest⟩ k other hk
    cases k with
    | zero =>
      obtain rfl := Option.some.inj hk
      exact hfirst
    | succ k =>
      rw [show i + (k + 1) = i + 1 + k by omega]
      exact hrest k other hk

omit [DecidableEq α] in
theorem unanimous_cons {i : Nat} {source : σ} {sources : List σ} {answer : α} :
    Unanimous ask confirm i (source :: sources) answer ↔
      (ask i source = some answer ∧ ∃ ok, confirm i source answer = some ok) ∧
        Unanimous ask confirm (i + 1) sources answer :=
  forall_getElem?_cons fun i source =>
    ask i source = some answer ∧ ∃ ok, confirm i source answer = some ok

omit [DecidableEq α] in
theorem confirmed_cons {i : Nat} {source : σ} {sources : List σ} {answer : α} :
    Confirmed confirm i (source :: sources) answer ↔
      confirm i source answer = some true ∧ Confirmed confirm (i + 1) sources answer :=
  forall_getElem?_cons fun i source => confirm i source answer = some true

theorem agreeLoop_eq_some_iff {i : Nat} {sources : List σ} {answer : α} {before after : Bool} :
    agreeLoop ask confirm answer i before sources = some after ↔
      Unanimous ask confirm i sources answer ∧
        (after = true ↔ before = true ∧ Confirmed confirm i sources answer) := by
  induction sources generalizing i before with
  | nil =>
    have hall : Unanimous ask confirm i [] answer := fun k _ hk => by cases hk
    have hconfirmed : Confirmed confirm i [] answer := fun k _ hk => by cases hk
    rw [agreeLoop, Option.some.injEq]
    refine ⟨fun h => ⟨hall, by rw [h]; exact (and_iff_left hconfirmed).symm⟩, fun h => ?_⟩
    rw [Bool.eq_iff_iff, h.2]
    exact (and_iff_left hconfirmed).symm
  | cons source sources ih =>
    rw [agreeLoop, unanimous_cons, confirmed_cons]
    cases hask : ask i source with
    | none => simp
    | some one =>
      by_cases hone : one = answer
      · subst hone
        cases hconfirm : confirm i source one with
        | none => simp [hconfirm]
        | some ok => simp [hconfirm, ih, and_assoc]
      · simp [hone]

/-- The result of the loop: an answer on which all sources agree, and whether
all of them have confirmed it. -/
theorem agree_eq_some_iff {sources : List σ} (hne : sources ≠ []) {answer : α}
    {confirmed : Bool} :
    agree ask confirm sources = some (answer, confirmed) ↔
      Unanimous ask confirm 0 sources answer ∧
        (confirmed = true ↔ Confirmed confirm 0 sources answer) := by
  cases sources with
  | nil => exact absurd rfl hne
  | cons source sources =>
    rw [agree, unanimous_cons, confirmed_cons]
    cases hask : ask 0 source with
    | none => simp
    | some one =>
      cases hconfirm : confirm 0 source one with
      | none =>
        simp only [hconfirm, Option.some.injEq, reduceCtorEq, false_iff, not_and, and_imp]
        rintro rfl ⟨ok, hok⟩
        rw [hconfirm] at hok
        cases hok
      | some ok =>
        simp only [hconfirm, Option.map_eq_some_iff, Prod.mk.injEq, agreeLoop_eq_some_iff,
          Option.some.injEq]
        constructor
        · rintro ⟨_, ⟨hall, hiff⟩, rfl, rfl⟩
          exact ⟨⟨⟨rfl, ok, hconfirm⟩, hall⟩, by simp [hiff, hconfirm]⟩
        · rintro ⟨⟨⟨rfl, -⟩, hall⟩, hiff⟩
          exact ⟨confirmed, ⟨hall, by simp [hiff, hconfirm]⟩, rfl, rfl⟩

/-! ## Sources whose answer does not depend on their place -/

section Place

variable (hask : ∀ i j source, ask i source = ask j source)
  (hconfirm : ∀ i j source answer, confirm i source answer = confirm j source answer)

include hask hconfirm

omit [DecidableEq α] in
theorem unanimous_iff_forall_mem {i : Nat} {sources : List σ} {answer : α} :
    Unanimous ask confirm i sources answer ↔
      ∀ source ∈ sources, ask 0 source = some answer ∧
        ∃ ok, confirm 0 source answer = some ok := by
  constructor
  · intro h source hsource
    obtain ⟨k, hk⟩ := List.mem_iff_getElem?.mp hsource
    have hk := h k source hk
    rw [hask (i + k) 0, hconfirm (i + k) 0] at hk
    exact hk
  · intro h k source hk
    rw [hask (i + k) 0, hconfirm (i + k) 0]
    exact h source (List.mem_of_getElem? hk)

omit [DecidableEq α] hask in
theorem confirmed_iff_forall_mem {i : Nat} {sources : List σ} {answer : α} :
    Confirmed confirm i sources answer ↔
      ∀ source ∈ sources, confirm 0 source answer = some true := by
  constructor
  · intro h source hsource
    obtain ⟨k, hk⟩ := List.mem_iff_getElem?.mp hsource
    rw [hconfirm 0 (i + k)]
    exact h k source hk
  · intro h k source hk
    rw [hconfirm (i + k) 0]
    exact h source (List.mem_of_getElem? hk)

/-- The loop sees the set of its sources only: neither their order nor how often
one stands in the list. -/
theorem agree_eq_of_mem_iff {sources sources' : List σ}
    (hset : ∀ source, source ∈ sources ↔ source ∈ sources') :
    agree ask confirm sources = agree ask confirm sources' := by
  by_cases hne : sources = []
  · obtain rfl : sources' = [] := by
      rw [List.eq_nil_iff_forall_not_mem]
      intro source hsource
      have hmem := (hset source).mpr hsource
      rw [hne] at hmem
      exact absurd hmem List.not_mem_nil
    rw [hne]
  · have hne' : sources' ≠ [] := by
      obtain ⟨source, hsource⟩ := List.exists_mem_of_ne_nil sources hne
      exact List.ne_nil_of_mem ((hset source).mp hsource)
    apply Option.ext
    rintro ⟨answer, confirmed⟩
    rw [agree_eq_some_iff hne, agree_eq_some_iff hne',
      unanimous_iff_forall_mem hask hconfirm, unanimous_iff_forall_mem hask hconfirm,
      confirmed_iff_forall_mem hconfirm, confirmed_iff_forall_mem hconfirm]
    simp only [hset]

end Place

end OracleMachine.Lib.Agreement
