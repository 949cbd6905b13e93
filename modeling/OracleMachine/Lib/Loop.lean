import Mathlib.Tactic.Common

/-!
# Loops that leave in the middle

A `while (true)` loop whose body ends with `continue` or `break` is a step
function into `Turn σ`.  The body may itself be a loop that has to be given
fuel, so a step answers an `Option`.

`run` iterates a step with fuel, and `none` says that the fuel ran out.
`run_spec` is the rule for it: with a measure that every `continue` lowers, the
loop returns, and a relation between the state before and the state after that
holds of each `break` and composes with each `continue` holds of the whole
loop.

A `for` loop over places that it updates one after the other is a fold.
`get_foldl_set` says what it leaves at a place that it meets once, and
`get_foldl_set_of_notMem` that it leaves the others alone.
-/

namespace OracleMachine.Lib.Loop

variable {σ : Type}

/-- How one pass of a loop ends: `continue` or `break`. -/
inductive Turn (σ : Type) where
  | again (s : σ)
  | leave (s : σ)

/-- Iterate a step until it leaves. -/
def run (step : σ → Option (Turn σ)) : Nat → σ → Option σ
  | 0, _ => none
  | fuel + 1, s =>
    match step s with
    | none => none
    | some (.leave s) => some s
    | some (.again s) => run step fuel s

/-- What one pass has to show for the rule: a `break` ends in the relation, a
`continue` keeps the invariant, lowers the measure and composes with the
relation. -/
def TurnOk (I : σ → Prop) (R : σ → σ → Prop) (measure : σ → Nat) (s : σ) : Turn σ → Prop
  | .leave s' => R s s'
  | .again s' => I s' ∧ measure s' < measure s ∧ ∀ t, R s' t → R s t

/-- A loop whose passes lower a measure returns, in the relation that its
passes build up. -/
theorem run_spec {step : σ → Option (Turn σ)} {I : σ → Prop} {R : σ → σ → Prop}
    (measure : σ → Nat)
    (hstep : ∀ s, I s → ∃ out, step s = some out ∧ TurnOk I R measure s out)
    (fuel : Nat) (s : σ) (hs : I s) (hfuel : measure s < fuel) :
    ∃ t, run step fuel s = some t ∧ R s t := by
  induction fuel generalizing s with
  | zero => omega
  | succ fuel ih =>
    obtain ⟨out, hout, hok⟩ := hstep s hs
    unfold run
    rw [hout]
    cases out with
    | leave t => exact ⟨t, rfl, hok⟩
    | again s' =>
      obtain ⟨hs', hlt, hcomp⟩ := hok
      obtain ⟨t, hrun, hR⟩ := ih s' hs' (by omega)
      exact ⟨t, hrun, hcomp t hR⟩

/-! ## Loops that update places -/

section Places

variable {ι κ α : Type} [DecidableEq κ] {get : σ → κ → α} {set : σ → κ → α → σ}
  (hset : ∀ s k v k', get (set s k v) k' = if k' = k then v else get s k')
  (place : ι → κ) (value : ι → α → α)

include hset

theorem get_foldl_set_of_notMem (l : List ι) (s : σ) {k : κ} (hk : k ∉ l.map place) :
    get (l.foldl (fun s i => set s (place i) (value i (get s (place i)))) s) k = get s k := by
  induction l generalizing s with
  | nil => rfl
  | cons i l ih =>
    rw [List.map_cons, List.mem_cons, not_or] at hk
    rw [List.foldl_cons, ih _ hk.2, hset, if_neg hk.1]

theorem get_foldl_set {l : List ι} (hnodup : (l.map place).Nodup) (s : σ) {i : ι} (hi : i ∈ l) :
    get (l.foldl (fun s i => set s (place i) (value i (get s (place i)))) s) (place i) =
      value i (get s (place i)) := by
  induction l generalizing s with
  | nil => cases hi
  | cons j l ih =>
    rw [List.map_cons, List.nodup_cons] at hnodup
    rw [List.foldl_cons]
    by_cases hmem : i ∈ l
    · -- The place of `j` is another one, so the first pass leaves this one alone.
      have hne : place i ≠ place j := by
        intro heq
        exact hnodup.1 (heq ▸ List.mem_map_of_mem hmem)
      rw [ih hnodup.2 _ hmem, hset, if_neg hne]
    · have heq : i = j := (List.mem_cons.mp hi).resolve_right hmem
      rw [heq, get_foldl_set_of_notMem hset place value l _ hnodup.1, hset, if_pos rfl]

end Places

end OracleMachine.Lib.Loop
