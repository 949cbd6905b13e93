import OracleMachine.Lib.Transition

/-!
# Runs that come to an end, and runs that are watched

A system that stops makes progress and does not go on for ever.  That it makes
progress is a fact about single states: some step is enabled.  For the other half
`Runs.countP_add_rank_le` is the rule: if the steps that count lower a rank and
the others do not raise it, then a run has at most as many of them as the rank of
its first state.

`observed step note` runs a system together with notes about its steps, which the
system itself does not keep.  The notes do not change what the system can do
(`observed_eq_some`).
-/

namespace OracleMachine.Lib.Transition

variable {σ α γ : Type} {step : σ → α → Option σ} {G : σ → α → Prop}

/-- The steps that count are paid for by the rank and by `k` for each step that earns.
`I` is an invariant under which they are. -/
theorem Runs.countP_amortized {I : σ → Prop} {rank : σ → Nat} {counts earns : α → Bool} {k : Nat}
    {s t : σ} {as : List α} (hrun : Runs step G s as t) (hs : I s)
    (hinv : ∀ s a s', I s → G s a → step s a = some s' → I s')
    (hpay : ∀ s a s', I s → G s a → step s a = some s' →
      (counts a).toNat + rank s' ≤ rank s + k * (earns a).toNat) :
    as.countP counts + rank t ≤ rank s + k * as.countP earns := by
  induction hrun with
  | nil s => simp only [List.countP_nil, Nat.zero_add, Nat.mul_zero, Nat.add_zero, Nat.le_refl]
  | @cons s s' t a as guard fires _ ih =>
    have hrest := ih (hinv s a s' hs guard fires)
    have hfirst := hpay s a s' hs guard fires
    have hcount : ∀ p : α → Bool, (a :: as).countP p = as.countP p + (p a).toNat := by
      intro p
      rw [List.countP_cons]
      cases p a <;> rfl
    rw [hcount, hcount, Nat.mul_add]
    omega

/-- The steps that count are at most as many as the rank allows.  `I` is an
invariant under which they lower it. -/
theorem Runs.countP_add_rank_le {I : σ → Prop} {rank : σ → Nat} {counts : α → Bool} {s t : σ}
    {as : List α} (hrun : Runs step G s as t) (hs : I s)
    (hinv : ∀ s a s', I s → G s a → step s a = some s' → I s')
    (hlower : ∀ s a s', I s → G s a → step s a = some s' →
      (counts a).toNat + rank s' ≤ rank s) :
    as.countP counts + rank t ≤ rank s := by
  have hcount : as.countP counts + rank t ≤ rank s + 0 * as.countP counts := by
    refine hrun.countP_amortized hs hinv fun s a s' h hG hstep => ?_
    rw [Nat.zero_mul]
    exact hlower s a s' h hG hstep
  rwa [Nat.zero_mul] at hcount

/-- The system with notes: `note` sees a step with the states before and after
it. -/
def observed (step : σ → α → Option σ) (note : σ → α → σ → γ → γ) (p : σ × γ) (a : α) :
    Option (σ × γ) :=
  (step p.1 a).map fun s' => (s', note p.1 a s' p.2)

variable {note : σ → α → σ → γ → γ}

theorem observed_eq_some {p q : σ × γ} {a : α} :
    observed step note p a = some q ↔
      step p.1 a = some q.1 ∧ q.2 = note p.1 a q.1 p.2 := by
  rw [observed, Option.map_eq_some_iff]
  constructor
  · rintro ⟨s', hstep, rfl⟩
    exact ⟨hstep, rfl⟩
  · rintro ⟨hstep, hnote⟩
    exact ⟨q.1, hstep, Prod.ext rfl hnote.symm⟩

end OracleMachine.Lib.Transition
