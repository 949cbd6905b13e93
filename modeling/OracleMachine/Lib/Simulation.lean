import OracleMachine.Lib.Transition

/-!
# Forward simulation between labelled systems

A system refines another one when its steps are steps of the other one, or
nothing there.  `label` says which: the label of the other system, or `none` for a
step that it does not see.  `Runs.simulate` takes the relation from single steps
to runs, and the labels of the second run are those that are seen.
-/

namespace OracleMachine.Lib.Transition

variable {σ τ α β : Type}

theorem exec_singleton (step : σ → α → Option σ) (s : σ) (a : α) : exec step s [a] = step s a := by
  rw [exec]
  cases step s a with
  | none => rfl
  | some s' => rfl

theorem Runs.simulate {step : σ → α → Option σ} {step' : τ → β → Option τ}
    {label : α → Option β} {R : σ → τ → Prop} {s s' : σ} {t : τ} {as : List α}
    (hrun : Runs step anyStep s as s') (hst : R s t)
    (hsim : ∀ s a s' t, R s t → step s a = some s' →
      ∃ t', exec step' t (label a).toList = some t' ∧ R s' t') :
    ∃ t', Runs step' anyStep t (as.filterMap label) t' ∧ R s' t' := by
  induction hrun generalizing t with
  | nil s => exact ⟨t, .nil t, hst⟩
  | @cons s u s' a as _ fires _ ih =>
    obtain ⟨t₁, hexec, hut₁⟩ := hsim s a u t hst fires
    obtain ⟨t₂, hrest, hs't₂⟩ := ih hut₁
    refine ⟨t₂, ?_, hs't₂⟩
    cases ha : label a with
    | none =>
      rw [ha, Option.toList_none, exec, Option.some.injEq] at hexec
      rw [List.filterMap_cons_none ha, hexec]
      exact hrest
    | some b =>
      rw [ha, Option.toList_some, exec_singleton] at hexec
      rw [List.filterMap_cons_some ha]
      exact .cons trivial hexec hrest

end OracleMachine.Lib.Transition
