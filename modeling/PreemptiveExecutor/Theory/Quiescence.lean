/-
# Theory.Quiescence — runs that come to rest

Some of the labels are internal: steps that the system takes on its own.  If each
internal step from a good state leads to a good state and lowers a measure, then no
internal run is longer than the measure, and however the steps are scheduled, the
system comes to a state from which no internal step is possible.
-/
import PreemptiveExecutor.Theory.Refinement

namespace PreemptiveExecutor.Theory

set_option autoImplicit false

namespace Transition

variable {σ ℓ : Type}

structure Lowers (T : Transition σ ℓ) (internal : ℓ → Prop) (Good : σ → Prop) (measure : σ → Nat) : Prop where
  keeps : ∀ s l s', Good s → internal l → T.step s l = some s' → Good s'
  lowers : ∀ s l s', Good s → internal l → T.step s l = some s' → measure s' < measure s

/-- No internal step is possible. -/
def AtRest (T : Transition σ ℓ) (internal : ℓ → Prop) (s : σ) : Prop := ∀ l, internal l → T.step s l = none

namespace Lowers

variable {T : Transition σ ℓ} {internal : ℓ → Prop} {Good : σ → Prop} {measure : σ → Nat}

/-- **An internal run is no longer than the measure.** -/
theorem run_le (lowers : Lowers T internal Good measure) {s s' : σ} {labels : List ℓ} (good : Good s)
    (all : ∀ l ∈ labels, internal l) (ran : T.run s labels = some s') :
    Good s' ∧ labels.length + measure s' ≤ measure s := by
  induction labels generalizing s with
  | nil =>
      cases ran
      exact ⟨good, by simp⟩
  | cons l labels ih =>
      obtain ⟨here, later⟩ := List.forall_mem_cons.1 all
      rw [run_cons] at ran
      obtain ⟨s₁, stepped, ran⟩ := Option.bind_eq_some_iff.1 ran
      obtain ⟨good', bound⟩ := ih (lowers.keeps s l s₁ good here stepped) later ran
      have lower := lowers.lowers s l s₁ good here stepped
      refine ⟨good', ?_⟩
      rw [List.length_cons]
      omega

/-- **Some internal run comes to rest.** -/
theorem comes_to_rest (lowers : Lowers T internal Good measure) {s : σ} (good : Good s) :
    ∃ labels s', (∀ l ∈ labels, internal l) ∧ T.run s labels = some s' ∧ T.AtRest internal s' := by
  induction left : measure s using Nat.strongRecOn generalizing s with
  | ind n ih =>
      by_cases rest : T.AtRest internal s
      · exact ⟨[], s, List.forall_mem_nil _, rfl, rest⟩
      · unfold AtRest at rest
        push Not at rest
        obtain ⟨l, here, possible⟩ := rest
        obtain ⟨s₁, stepped⟩ := Option.ne_none_iff_exists'.1 possible
        have lower := lowers.lowers s l s₁ good here stepped
        obtain ⟨labels, s', all, ran, rest⟩ :=
          ih (measure s₁) (left ▸ lower) (lowers.keeps s l s₁ good here stepped) rfl
        refine ⟨l :: labels, s', List.forall_mem_cons.2 ⟨here, all⟩, ?_, rest⟩
        rw [run_cons, stepped]
        exact ran

end Lowers

end Transition

end PreemptiveExecutor.Theory
