import Mathlib.Data.List.Basic

/-!
# Handles with one owner

A table hands out handles that are reused after they are given back: file
descriptors, thread ids.  `owns o r` says that the owner `o` holds the handle
`r`, and `isOpen r` that the table regards `r` as taken.

`Exclusive owns isOpen` is the discipline: what is owned is taken, and it has
one owner.  A step of a system keeps it when it takes a handle that is free
(`acquire`), gives one back (`release`), or passes all handles of one owner to
another (`pass`).
-/

namespace OracleMachine.Lib.Ownership

variable {ο ρ : Type}

/-- Every owned handle is open and has one owner. -/
structure Exclusive (owns : ο → ρ → Prop) (isOpen : ρ → Prop) : Prop where
  taken : ∀ {o : ο} {r : ρ}, owns o r → isOpen r
  sole : ∀ {o o' : ο} {r : ρ}, owns o r → owns o' r → o = o'

namespace Exclusive

variable {owns owns' : ο → ρ → Prop} {isOpen isOpen' : ρ → Prop}

/-- `o` takes a handle that was free. -/
theorem acquire (h : Exclusive owns isOpen) {o : ο} {r : ρ} (hfree : ¬ isOpen r)
    (howns : ∀ o' x, owns' o' x → owns o' x ∨ o' = o ∧ x = r)
    (hr : isOpen' r) (hopen : ∀ x, isOpen x → isOpen' x) : Exclusive owns' isOpen' where
  taken := by
    intro o' x hx
    rcases howns o' x hx with hold | ⟨-, rfl⟩
    · exact hopen x (h.taken hold)
    · exact hr
  sole := by
    intro o₁ o₂ x h₁ h₂
    rcases howns o₁ x h₁ with hold₁ | ⟨rfl, rfl⟩
    · rcases howns o₂ x h₂ with hold₂ | ⟨rfl, rfl⟩
      · exact h.sole hold₁ hold₂
      · exact absurd (h.taken hold₁) hfree
    · rcases howns o₂ x h₂ with hold₂ | ⟨rfl, -⟩
      · exact absurd (h.taken hold₂) hfree
      · rfl

/-- `o` gives the handle `r` back.  Nobody else held it, so that what the
others hold stays open. -/
theorem release (h : Exclusive owns isOpen) {o : ο} {r : ρ} (hr : owns o r)
    (howns : ∀ o' x, owns' o' x → owns o' x ∧ ¬ (o' = o ∧ x = r))
    (hopen : ∀ x, isOpen x → x ≠ r → isOpen' x) : Exclusive owns' isOpen' where
  taken := by
    intro o' x hx
    have hold := howns o' x hx
    apply hopen x (h.taken hold.1)
    rintro rfl
    exact hold.2 ⟨h.sole hold.1 hr, rfl⟩
  sole h₁ h₂ := h.sole (howns _ _ h₁).1 (howns _ _ h₂).1

/-- What `o` holds goes to `o'`. -/
theorem pass (h : Exclusive owns isOpen) (o o' : ο)
    (howns : ∀ p x, owns' p x → p = o' ∧ owns o x ∨ p ≠ o ∧ owns p x) :
    Exclusive owns' isOpen where
  taken := by
    intro p x hx
    rcases howns p x hx with ⟨-, hx⟩ | ⟨-, hx⟩
    · exact h.taken hx
    · exact h.taken hx
  sole := by
    intro p q x hp hq
    rcases howns p x hp with ⟨rfl, hp⟩ | ⟨hne, hp⟩
    · rcases howns q x hq with ⟨rfl, -⟩ | ⟨hne', hq⟩
      · rfl
      · exact absurd (h.sole hq hp) hne'
    · rcases howns q x hq with ⟨rfl, hq⟩ | ⟨-, hq⟩
      · exact absurd (h.sole hp hq) hne
      · exact h.sole hp hq

end Exclusive

end OracleMachine.Lib.Ownership
