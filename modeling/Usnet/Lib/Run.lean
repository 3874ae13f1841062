import Mathlib.Logic.Function.Iterate

/-! # Runs of a step relation

    A system is a relation between a state, the action taken and the state
    after it.  `RunWhere` collects the states reached by runs all of whose
    steps meet a condition on the state before the step and the action; the
    reachable states are the runs under no condition.
-/

namespace Run

variable {σ α : Type*}

/-- States reached from an initial state by steps that all meet `C`. -/
inductive RunWhere (step : σ → α → σ → Prop) (C : σ → α → Prop) (init : σ → Prop) :
    σ → Prop
  | init {s : σ} : init s → RunWhere step C init s
  | step {s s' : σ} {a : α} :
      RunWhere step C init s → C s a → step s a s' → RunWhere step C init s'

/-- The states reached by any run. -/
abbrev Reachable (step : σ → α → σ → Prop) (init : σ → Prop) : σ → Prop :=
  RunWhere step (fun _ _ => True) init

variable {step : σ → α → σ → Prop} {C D : σ → α → Prop} {init : σ → Prop}

/-- The step before the condition, which often follows from the action alone. -/
theorem RunWhere.next {s s' : σ} {a : α} (h : RunWhere step C init s) (hs : step s a s')
    (hc : C s a) : RunWhere step C init s' := .step h hc hs

/-- The invariant rule: what holds at the start and is kept by every step that
    meets the condition holds in every state of the run. -/
theorem RunWhere.invariant {I : σ → Prop} (hinit : ∀ s, init s → I s)
    (hstep : ∀ s a s', I s → C s a → step s a s' → I s')
    {s : σ} (h : RunWhere step C init s) : I s := by
  induction h with
  | init h => exact hinit _ h
  | step _ hc hs ih => exact hstep _ _ _ ih hc hs

/-- The invariant rule relative to an invariant already known of the run. -/
theorem RunWhere.invariant_of {K I : σ → Prop}
    (hknown : ∀ s, RunWhere step C init s → K s) (hinit : ∀ s, init s → I s)
    (hstep : ∀ s a s', K s → I s → C s a → step s a s' → I s')
    {s : σ} (h : RunWhere step C init s) : I s := by
  induction h with
  | init h => exact hinit _ h
  | step hr hc hs ih => exact hstep _ _ _ (hknown _ hr) ih hc hs

/-- A run under a stronger condition is a run under the weaker one. -/
theorem RunWhere.mono (hCD : ∀ s a, C s a → D s a) {s : σ}
    (h : RunWhere step C init s) : RunWhere step D init s := by
  induction h with
  | init h => exact .init h
  | step _ hc hs ih => exact .step ih (hCD _ _ hc) hs

/-- Every run under a condition is a run. -/
theorem RunWhere.reachable {s : σ} (h : RunWhere step C init s) :
    Reachable step init s :=
  h.mono fun _ _ _ => trivial

/-- Repeating a step that is always possible stays on the run. -/
theorem RunWhere.iterate {f : σ → σ} {a : α} (hf : ∀ s, step s a (f s)) (hc : ∀ s, C s a)
    (n : Nat) {s : σ} (h : RunWhere step C init s) : RunWhere step C init (f^[n] s) := by
  induction n generalizing s with
  | zero => exact h
  | succ n ih => exact ih (.step h (hc s) (hf s))

end Run
