/-
# Theory.Transition — labelled transition systems

A system is a set of initial states and a partial step function; a label says
which party moves and which of its nondeterministic choices is taken.  A run is
a list of labels.

`ReachableWhile meets s`: some run leads to `s` whose steps were all taken from
a state that meets the condition; `Reachable` is the case without a condition.
Safety statements are proved with `invariant`: true initially, and preserved by
every step (of a state that is itself reachable).
-/
import Mathlib.Tactic.Common

namespace PreemptiveExecutor.Theory

set_option autoImplicit false

structure Transition (σ ℓ : Type) where
  Init : σ → Prop
  step : σ → ℓ → Option σ

namespace Transition

variable {σ ℓ : Type} (T : Transition σ ℓ)

/-- The state after the steps `labels`, if all of them are possible and taken
from a state that meets the condition. -/
def runWhile (meets : σ → ℓ → Prop) [∀ s l, Decidable (meets s l)] : σ → List ℓ → Option σ
  | s, [] => some s
  | s, l :: labels =>
      if meets s l then (T.step s l).bind fun s' => runWhile meets s' labels else none

abbrev run : σ → List ℓ → Option σ := T.runWhile fun _ _ => True

inductive ReachableWhile (meets : σ → ℓ → Prop) : σ → Prop where
  | init {s : σ} (start : T.Init s) : ReachableWhile meets s
  | step {s s' : σ} {l : ℓ} (before : ReachableWhile meets s) (met : meets s l)
      (stepped : T.step s l = some s') : ReachableWhile meets s'

abbrev Reachable : σ → Prop := T.ReachableWhile fun _ _ => True

variable {T}

/-- **Invariant rule.** -/
theorem invariant {meets : σ → ℓ → Prop} (I : σ → Prop) (init : ∀ s, T.Init s → I s)
    (step : ∀ s l s', I s → meets s l → T.step s l = some s' → I s') {s : σ}
    (reachable : T.ReachableWhile meets s) : I s := by
  induction reachable with
  | init start => exact init _ start
  | step _ met stepped inv => exact step _ _ _ inv met stepped

/-- A condition on the steps can only remove runs. -/
theorem ReachableWhile.reachable {meets : σ → ℓ → Prop} {s : σ} (h : T.ReachableWhile meets s) :
    T.Reachable s := by
  induction h with
  | init start => exact .init start
  | step _ _ stepped before => exact .step before trivial stepped

theorem reachableWhile_run {meets : σ → ℓ → Prop} [∀ s l, Decidable (meets s l)] {s s' : σ}
    (reachable : T.ReachableWhile meets s) {labels : List ℓ}
    (ran : T.runWhile meets s labels = some s') : T.ReachableWhile meets s' := by
  induction labels generalizing s with
  | nil => cases ran; exact reachable
  | cons l labels ih =>
      rw [runWhile] at ran
      split at ran
      · rename_i met
        cases stepped : T.step s l with
        | none => rw [stepped] at ran; cases ran
        | some s₁ =>
            rw [stepped] at ran
            exact ih (.step reachable met stepped) ran
      · cases ran

/-! ## Histories -/

/-- The system with a log that no step reads: what `record` says about each step,
in the order of the steps. -/
def withHistory {η : Type} (T : Transition σ ℓ) (record : σ → ℓ → List η) : Transition (σ × List η) ℓ where
  Init p := T.Init p.1 ∧ p.2 = []
  step p l := (T.step p.1 l).map fun s' => (s', p.2 ++ record p.1 l)

end Transition

end PreemptiveExecutor.Theory
