import Mathlib
/-!
# Runs of a state machine

A machine is a set of initial states and a step relation. What holds first and
survives every step holds in every state of every run, and a view of a machine
under which its steps are steps of another one runs as the other does.
-/

namespace MiniLibc.Runs

variable {σ τ : Type}

/-- The states of the runs from `init`. -/
inductive Reachable (init : σ → Prop) (step : σ → σ → Prop) : σ → Prop where
  | start {s : σ} : init s → Reachable init step s
  | next {s s' : σ} : Reachable init step s → step s s' → Reachable init step s'

theorem Reachable.run {init : σ → Prop} {step : σ → σ → Prop} {s s' : σ} (h : Reachable init step s)
    (hrun : Relation.ReflTransGen step s s') : Reachable init step s' := by
  induction hrun with
  | refl => exact h
  | tail _ hs ih => exact ih.next hs

/-- The induction over a run. -/
theorem Reachable.invariant {init : σ → Prop} {step : σ → σ → Prop} {I : σ → Prop} (hinit : ∀ s, init s → I s)
    (hstep : ∀ s s', I s → step s s' → I s') {s : σ} (h : Reachable init step s) : I s := by
  induction h with
  | start h => exact hinit _ h
  | next _ h ih => exact hstep _ _ ih h

/-- A machine whose steps are steps of another, or none, under a view of its
states, as long as they are reached in states with `I`. -/
theorem Reachable.view {init : σ → Prop} {step : σ → σ → Prop} {init' : τ → Prop} {step' : τ → τ → Prop}
    {I : σ → Prop} (view : σ → τ) (hinit : ∀ s, init s → I s ∧ init' (view s))
    (hstep : ∀ s s', I s → step s s' → I s' ∧ (view s' = view s ∨ step' (view s) (view s'))) {s : σ}
    (h : Reachable init step s) : I s ∧ Reachable init' step' (view s) := by
  induction h with
  | start h => exact ⟨(hinit _ h).1, .start (hinit _ h).2⟩
  | next _ h ih =>
    obtain ⟨hI, hv⟩ := hstep _ _ ih.1 h
    refine ⟨hI, ?_⟩
    rcases hv with he | hs
    · rw [he]
      exact ih.2
    · exact .next ih.2 hs

/-- The same from a state of the run to a later one. -/
theorem view_run {step : σ → σ → Prop} {step' : τ → τ → Prop} {I : σ → Prop} (view : σ → τ)
    (hstep : ∀ s s', I s → step s s' → I s' ∧ (view s' = view s ∨ step' (view s) (view s'))) {s s' : σ} (hI : I s)
    (h : Relation.ReflTransGen step s s') : I s' ∧ Relation.ReflTransGen step' (view s) (view s') := by
  induction h with
  | refl => exact ⟨hI, .refl⟩
  | tail _ h ih =>
    obtain ⟨hI', hv⟩ := hstep _ _ ih.1 h
    refine ⟨hI', ?_⟩
    rcases hv with he | hs
    · rw [he]
      exact ih.2
    · exact ih.2.tail hs

end MiniLibc.Runs
