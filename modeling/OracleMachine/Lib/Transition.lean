import Mathlib.Data.List.Basic

/-!
# Runs of a labelled step function

A system is given by a partial step function `step : σ → α → Option σ`: the
label says which party moves and what it is told, and `none` says that the
move is not enabled.  Every interleaving of the parties is then one list of
labels.

* `Runs step G s as t` is a run from `s` to `t` under the labels `as` in which
  every step meets the guard `G`.  A plain run has the guard that is always
  true.
* `Runs.invariant` is the induction over runs: what the start has and every
  guarded step keeps, the end has.
* `Runs.history` is the same for what also depends on the labels so far.
* `Runs.append_iff`, `Runs.mono` and `Runs.unique` take runs apart and compare
  them.
* `exec` runs a list of labels, so that a concrete run is evaluated and not
  written out step by step.  `runs_of_exec` is the bridge, and
  `runs_of_exec_guarded` for a guard that is evaluated on the way.
-/

namespace OracleMachine.Lib.Transition

variable {σ α : Type}

/-- A run in which every step meets the guard `G`. -/
inductive Runs (step : σ → α → Option σ) (G : σ → α → Prop) :
    σ → List α → σ → Prop where
  | nil (s : σ) : Runs step G s [] s
  | cons {s s' t : σ} {a : α} {as : List α} (guard : G s a)
      (fires : step s a = some s') (rest : Runs step G s' as t) :
      Runs step G s (a :: as) t

/-- The guard of a plain run. -/
def anyStep (_ : σ) (_ : α) : Prop := True

variable {step : σ → α → Option σ} {G : σ → α → Prop}

/-- What the first state has and every guarded step keeps, the last state
has. -/
theorem Runs.invariant {I : σ → Prop}
    (hstep : ∀ s a s', I s → G s a → step s a = some s' → I s')
    {s t : σ} {as : List α} (hrun : Runs step G s as t) (hs : I s) : I t := by
  induction hrun with
  | nil s => exact hs
  | cons guard fires _ ih => exact ih (hstep _ _ _ hs guard fires)

/-- The induction over runs for what depends on the labels so far. -/
theorem Runs.history {I : List α → σ → Prop}
    (hstep : ∀ as s a s', I as s → G s a → step s a = some s' → I (as ++ [a]) s')
    {s t : σ} {bs : List α} (hrun : Runs step G s bs t) (hs : I [] s) : I bs t := by
  have hfrom : ∀ as, I as s → I (as ++ bs) t := by
    clear hs
    induction hrun with
    | nil s =>
      intro as has
      rw [List.append_nil]
      exact has
    | @cons s s' t a bs guard fires _ ih =>
      intro as has
      have hnext := ih (as ++ [a]) (hstep as s a s' has guard fires)
      rwa [List.append_assoc, List.singleton_append] at hnext
  exact hfrom [] hs

/-- A run under a list that is put together is put together. -/
theorem Runs.append_iff {s t : σ} {as bs : List α} :
    Runs step G s (as ++ bs) t ↔ ∃ u, Runs step G s as u ∧ Runs step G u bs t := by
  induction as generalizing s with
  | nil =>
    constructor
    · intro hrun
      exact ⟨s, .nil s, hrun⟩
    · rintro ⟨u, hnil, hrun⟩
      cases hnil
      exact hrun
  | cons a as ih =>
    constructor
    · intro hrun
      cases hrun with
      | cons guard fires rest =>
        obtain ⟨u, hfirst, hsecond⟩ := ih.mp rest
        exact ⟨u, .cons guard fires hfirst, hsecond⟩
    · rintro ⟨u, hfirst, hsecond⟩
      cases hfirst with
      | cons guard fires rest => exact .cons guard fires (ih.mpr ⟨u, rest, hsecond⟩)

theorem Runs.mono {G' : σ → α → Prop} (hG : ∀ s a, G s a → G' s a) {s t : σ} {as : List α}
    (hrun : Runs step G s as t) : Runs step G' s as t := by
  induction hrun with
  | nil s => exact .nil s
  | cons guard fires _ ih => exact .cons (hG _ _ guard) fires ih

/-- The labels determine where a run ends. -/
theorem Runs.unique {G' : σ → α → Prop} {s t u : σ} {as : List α} (hrun : Runs step G s as t)
    (hrun' : Runs step G' s as u) : t = u := by
  induction hrun with
  | nil s =>
    cases hrun'
    rfl
  | cons _ fires _ ih =>
    cases hrun' with
    | cons _ fires' rest =>
      rw [fires] at fires'
      exact ih (Option.some.inj fires' ▸ rest)

/-- Run a list of labels. -/
def exec (step : σ → α → Option σ) : σ → List α → Option σ
  | s, [] => some s
  | s, a :: as => (step s a).bind fun s' => exec step s' as

/-- A list of labels that executes is a run, under every guard that the labels
meet in any state. -/
theorem runs_of_exec {s t : σ} {as : List α} (hG : ∀ a ∈ as, ∀ s, G s a)
    (h : exec step s as = some t) : Runs step G s as t := by
  induction as generalizing s with
  | nil =>
    rw [exec, Option.some.injEq] at h
    rw [h]
    exact .nil t
  | cons a as ih =>
    rw [exec, Option.bind_eq_some_iff] at h
    obtain ⟨s', hs', hrest⟩ := h
    exact .cons (hG a List.mem_cons_self s) hs'
      (ih (fun b hb => hG b (List.mem_cons_of_mem a hb)) hrest)

/-- The step function that fires only when the guard holds. -/
def guarded (step : σ → α → Option σ) (G : σ → α → Bool) (s : σ) (a : α) : Option σ :=
  if G s a then step s a else none

/-- A list of labels that executes under the guard is a run under it. -/
theorem runs_of_exec_guarded {G : σ → α → Bool} {s t : σ} {as : List α}
    (h : exec (guarded step G) s as = some t) : Runs step (fun s a => G s a) s as t := by
  induction as generalizing s with
  | nil =>
    rw [exec, Option.some.injEq] at h
    rw [h]
    exact .nil t
  | cons a as ih =>
    rw [exec, Option.bind_eq_some_iff] at h
    obtain ⟨s', hs', hrest⟩ := h
    rw [guarded, Option.ite_none_right_eq_some] at hs'
    exact .cons hs'.1 hs'.2 (ih hrest)

end OracleMachine.Lib.Transition
