import Mathlib.Logic.Function.Basic

/-!
# Mutual exclusion

A lock has a holder or is free, and a thread is inside its critical section or
outside.  `Owned` says that the holder is the one thread inside.  A thread that
takes the free lock enters (`Owned.acquire`), a holder that gives the lock back
leaves (`Owned.release`), and two threads are never inside together
(`Owned.unique`).
-/

namespace OracleMachine.Lib.Mutex

variable {θ : Type}

/-- The threads inside are the holder and nobody else. -/
def Owned (holder : Option θ) (inside : θ → Bool) : Prop :=
  ∀ t, holder = some t ↔ inside t = true

variable {holder : Option θ} {inside : θ → Bool}

theorem Owned.unique (h : Owned holder inside) {t u : θ} (ht : inside t = true)
    (hu : inside u = true) : t = u := by
  have heq : some t = some u := ((h t).mpr ht).symm.trans ((h u).mpr hu)
  exact Option.some.inj heq

theorem Owned.outside (h : Owned holder inside) (hfree : holder = none) (t : θ) :
    inside t = false := by
  cases ht : inside t with
  | false => rfl
  | true =>
    have hheld := (h t).mpr ht
    rw [hfree] at hheld
    exact absurd hheld (by simp)

theorem Owned.acquire [DecidableEq θ] (h : Owned holder inside) (hfree : holder = none) (t : θ) :
    Owned (some t) (Function.update inside t true) := by
  intro u
  by_cases hu : u = t
  · rw [hu, Function.update_self]
    simp
  · rw [Function.update_of_ne hu, h.outside hfree u, Option.some.injEq]
    simp [Ne.symm hu]

theorem Owned.release [DecidableEq θ] (h : Owned holder inside) {t : θ} (ht : inside t = true) :
    Owned none (Function.update inside t false) := by
  intro u
  by_cases hu : u = t
  · rw [hu, Function.update_self]
    simp
  · rw [Function.update_of_ne hu]
    have hout : inside u ≠ true := fun hin => hu (h.unique hin ht)
    simp [hout]

/-- A step of a thread that stays on its side of the lock. -/
theorem Owned.keep [DecidableEq θ] (h : Owned holder inside) {t : θ} {b : Bool}
    (hb : inside t = b) : Owned holder (Function.update inside t b) := by
  rwa [← hb, Function.update_eq_self]

end OracleMachine.Lib.Mutex
