import OracleMachine.Lib.Ownership
import Mathlib.Data.List.Perm.Basic

/-!
# The ledger of handles

What a system does with its handles is a list of events, newest first: a handle
is acquired, used in some way, or released.  A handle that was released can be
acquired again.

* `isOpen events r` says that `r` was acquired and not released since.
* `Lawful` is the discipline: only open handles are used or released, and only
  free ones are acquired.  Nothing is used after its release, and nothing is
  released twice.
* `Owned owns events` adds that the open handles are those that somebody owns,
  and that each has one owner.  It has a rule for every event, and one for
  handles that are passed on.
* `Owned.perm_of_unowned`: when nobody owns anything, every acquisition has had
  its release.
-/

namespace OracleMachine.Lib.Ledger

open Ownership

variable {κ ο ρ : Type}

/-- What happens to a handle. -/
inductive Event (κ ρ : Type) where
  | acquire (r : ρ)
  | use (kind : κ) (r : ρ)
  | release (r : ρ)
  deriving DecidableEq

/-- The handles that were acquired, the last one first. -/
def acquired : List (Event κ ρ) → List ρ
  | [] => []
  | .acquire r :: earlier => r :: acquired earlier
  | .use _ _ :: earlier => acquired earlier
  | .release _ :: earlier => acquired earlier

/-- The handles that were released, the last one first. -/
def released : List (Event κ ρ) → List ρ
  | [] => []
  | .acquire _ :: earlier => released earlier
  | .use _ _ :: earlier => released earlier
  | .release r :: earlier => r :: released earlier

/-- Uses acquire nothing. -/
theorem acquired_uses (kinds : List κ) (r : ρ) (events : List (Event κ ρ)) :
    acquired (kinds.map (Event.use · r) ++ events) = acquired events := by
  induction kinds with
  | nil => rfl
  | cons kind kinds ih => exact ih

variable [DecidableEq ρ]

/-- The handle was acquired and not released since. -/
def isOpen : List (Event κ ρ) → ρ → Bool
  | [], _ => false
  | .acquire r :: earlier, x => x = r || isOpen earlier x
  | .use _ _ :: earlier, x => isOpen earlier x
  | .release r :: earlier, x => x ≠ r && isOpen earlier x

/-- Only free handles were acquired, and only open ones used or released. -/
def Lawful : List (Event κ ρ) → Prop
  | [] => True
  | .acquire r :: earlier => isOpen earlier r = false ∧ Lawful earlier
  | .use _ r :: earlier => isOpen earlier r = true ∧ Lawful earlier
  | .release r :: earlier => isOpen earlier r = true ∧ Lawful earlier

variable {events : List (Event κ ρ)}

/-- A handle was released as often as it was acquired, or once less while it is
open. -/
theorem count_acquired (h : Lawful events) (r : ρ) :
    (acquired events).count r = (released events).count r + (isOpen events r).toNat := by
  induction events with
  | nil => rfl
  | cons event earlier ih =>
    cases event with
    | acquire x =>
      have hcount := ih h.2
      rw [acquired, released, isOpen, List.count_cons]
      by_cases hx : r = x
      · subst hx
        rw [h.1] at hcount
        simpa using hcount
      · simpa [hx, Ne.symm hx] using hcount
    | use kind x => exact ih h.2
    | release x =>
      have hcount := ih h.2
      rw [acquired, released, isOpen, List.count_cons]
      by_cases hx : r = x
      · subst hx
        rw [h.1] at hcount
        simpa using hcount
      · simpa [hx, Ne.symm hx] using hcount

/-- The discipline of handles: the open ones are owned, by one owner each. -/
structure Owned (owns : ο → ρ → Prop) (events : List (Event κ ρ)) : Prop where
  exclusive : Exclusive owns (isOpen events · = true)
  owner : ∀ r, isOpen events r = true → ∃ o, owns o r
  lawful : Lawful events

namespace Owned

variable {owns owns' : ο → ρ → Prop}

theorem congr (h : Owned owns events) (howns : ∀ p x, owns' p x ↔ owns p x) :
    Owned owns' events := by
  have heq : owns' = owns := funext fun p => funext fun x => propext (howns p x)
  rw [heq]
  exact h

/-- An owner uses a handle. -/
theorem use (h : Owned owns events) {o : ο} {r : ρ} (hr : owns o r) (kind : κ) :
    Owned owns (.use kind r :: events) where
  exclusive := h.exclusive
  owner := h.owner
  lawful := ⟨h.exclusive.taken hr, h.lawful⟩

/-- An owner uses a handle any number of times. -/
theorem uses (h : Owned owns events) {o : ο} {r : ρ} (hr : owns o r) (kinds : List κ) :
    Owned owns (kinds.map (Event.use · r) ++ events) := by
  induction kinds with
  | nil => exact h
  | cons kind kinds ih => exact ih.use hr kind

/-- `o` acquires a handle that is free. -/
theorem acquire (h : Owned owns events) {o : ο} {r : ρ} (hfree : isOpen events r = false)
    (howns : ∀ p x, owns' p x ↔ owns p x ∨ p = o ∧ x = r) :
    Owned owns' (.acquire r :: events) where
  exclusive := by
    refine h.exclusive.acquire (o := o) (r := r) ?_ (fun p x => (howns p x).mp) ?_ ?_
    · simp [hfree]
    · simp [isOpen]
    · intro x hx
      simp [isOpen, hx]
  owner := by
    intro x hx
    simp only [isOpen, Bool.or_eq_true, decide_eq_true_eq] at hx
    rcases hx with rfl | hx
    · exact ⟨o, (howns o x).mpr (.inr ⟨rfl, rfl⟩)⟩
    · obtain ⟨p, hp⟩ := h.owner x hx
      exact ⟨p, (howns p x).mpr (.inl hp)⟩
  lawful := ⟨hfree, h.lawful⟩

/-- `o` releases a handle. -/
theorem release (h : Owned owns events) {o : ο} {r : ρ} (hr : owns o r)
    (howns : ∀ p x, owns' p x ↔ owns p x ∧ ¬ (p = o ∧ x = r)) :
    Owned owns' (.release r :: events) where
  exclusive := by
    refine h.exclusive.release hr (fun p x => (howns p x).mp) ?_
    intro x hx hne
    simp [isOpen, hx, hne]
  owner := by
    intro x hx
    simp only [isOpen, Bool.and_eq_true, decide_eq_true_eq] at hx
    obtain ⟨p, hp⟩ := h.owner x hx.2
    exact ⟨p, (howns p x).mpr ⟨hp, fun hsame => hx.1 hsame.2⟩⟩
  lawful := ⟨h.exclusive.taken hr, h.lawful⟩

/-- What `o` holds goes to `o'`. -/
theorem pass (h : Owned owns events) (o o' : ο)
    (howns : ∀ p x, owns' p x ↔ p = o' ∧ owns o x ∨ p ≠ o ∧ owns p x) : Owned owns' events where
  exclusive := h.exclusive.pass o o' fun p x => (howns p x).mp
  owner := by
    intro x hx
    obtain ⟨p, hp⟩ := h.owner x hx
    by_cases hsame : p = o
    · exact ⟨o', (howns o' x).mpr (.inl ⟨rfl, hsame ▸ hp⟩)⟩
    · exact ⟨p, (howns p x).mpr (.inr ⟨hsame, hp⟩)⟩
  lawful := h.lawful

/-- An open handle has exactly one owner. -/
theorem existsUnique_owner (h : Owned owns events) {r : ρ} (hr : isOpen events r = true) :
    ∃! o, owns o r := by
  obtain ⟨o, ho⟩ := h.owner r hr
  exact ⟨o, ho, fun o' ho' => h.exclusive.sole ho' ho⟩

/-- When nobody owns a handle, every handle was released as often as it was
acquired. -/
theorem perm_of_unowned (h : Owned owns events) (hnone : ∀ o r, ¬ owns o r) :
    (released events).Perm (acquired events) := by
  rw [List.perm_iff_count]
  intro r
  have hclosed : isOpen events r = false := by
    rw [← Bool.not_eq_true]
    intro hopen
    obtain ⟨o, ho⟩ := h.owner r hopen
    exact hnone o r ho
  rw [count_acquired h.lawful, hclosed]
  rfl

end Owned

end OracleMachine.Lib.Ledger
