/-
# Theory.Refinement — forward simulation

A system refines a more abstract one under an abstraction function if each of its
steps is a run of the other one: the actions that `interpret` reads off the step,
often none.  Then its runs are runs of the other system (`Refines.run`).
-/
import PreemptiveExecutor.Theory.Transition

namespace PreemptiveExecutor.Theory

set_option autoImplicit false

namespace Transition

variable {σ ℓ τ κ : Type}

section Runs

variable {T : Transition σ ℓ}

theorem run_nil (s : σ) : T.run s [] = some s := rfl

theorem run_cons (s : σ) (l : ℓ) (labels : List ℓ) :
    T.run s (l :: labels) = (T.step s l).bind fun s' => T.run s' labels := by
  simp [run, runWhile]

theorem run_append (s : σ) (labels more : List ℓ) :
    T.run s (labels ++ more) = (T.run s labels).bind fun s' => T.run s' more := by
  induction labels generalizing s with
  | nil => rfl
  | cons l labels ih =>
      rw [List.cons_append, run_cons, run_cons, Option.bind_assoc]
      congr 1
      funext s'
      exact ih s'

/-- An invariant over a run, with the actions so far. -/
theorem run_rule (P : List ℓ → σ → Prop)
    (step : ∀ labels s l s', P labels s → T.step s l = some s' → P (labels ++ [l]) s') {s s' : σ}
    {labels : List ℓ} (start : P [] s) (ran : T.run s labels = some s') : P labels s' := by
  suffices from_ : ∀ before, P before s → P (before ++ labels) s' from from_ [] start
  clear start
  intro before start
  induction labels generalizing before s with
  | nil =>
      cases ran
      rw [List.append_nil]
      exact start
  | cons l labels ih =>
      rw [run_cons] at ran
      obtain ⟨s₁, stepped, ran⟩ := Option.bind_eq_some_iff.1 ran
      have later := ih ran (before ++ [l]) (step before s l s₁ start stepped)
      rwa [List.append_assoc] at later

/-- An invariant over a run of steps of one kind. -/
theorem run_keeps (kind : ℓ → Prop) (I : σ → Prop)
    (step : ∀ s l s', I s → kind l → T.step s l = some s' → I s') {s s' : σ} {labels : List ℓ} (start : I s)
    (of_kind : ∀ l ∈ labels, kind l) (ran : T.run s labels = some s') : I s' := by
  induction labels generalizing s with
  | nil =>
      cases ran
      exact start
  | cons l labels ih =>
      rw [run_cons] at ran
      obtain ⟨s₁, stepped, ran⟩ := Option.bind_eq_some_iff.1 ran
      obtain ⟨first, others⟩ := List.forall_mem_cons.1 of_kind
      exact ih (step s l s₁ start first stepped) others ran

/-- A run whose steps are of the kind the condition asks for. -/
theorem reachableWhile_of_kind {kind : ℓ → Prop} {s s' : σ} (reachable : T.ReachableWhile (fun _ l => kind l) s)
    {labels : List ℓ} (of_kind : ∀ l ∈ labels, kind l) (ran : T.run s labels = some s') :
    T.ReachableWhile (fun _ l => kind l) s' :=
  run_keeps kind _ (fun _ _ _ before met stepped => .step before met stepped) reachable of_kind ran

theorem exists_run {s : σ} (reachable : T.Reachable s) :
    ∃ s₀ labels, T.Init s₀ ∧ T.run s₀ labels = some s := by
  induction reachable with
  | init start => exact ⟨_, [], start, rfl⟩
  | @step _ _ l _ _ stepped before =>
      obtain ⟨s₀, labels, start, ran⟩ := before
      refine ⟨s₀, labels ++ [l], start, ?_⟩
      rw [run_append, ran, Option.bind_some, run_cons, stepped]
      rfl

/-- The log does not restrict the runs. -/
theorem withHistory_reachableWhile {η : Type} {record : σ → ℓ → List η} (meets : σ → ℓ → Prop)
    {p : σ × List η} (reachable : (T.withHistory record).ReachableWhile (fun p => meets p.1) p) :
    T.ReachableWhile meets p.1 := by
  induction reachable with
  | init start => exact .init start.1
  | step _ met stepped before =>
      obtain ⟨s', moved, rfl⟩ := Option.map_eq_some_iff.1 stepped
      exact .step before met moved

theorem withHistory_reachable {η : Type} {record : σ → ℓ → List η} {p : σ × List η}
    (reachable : (T.withHistory record).Reachable p) : T.Reachable p.1 :=
  withHistory_reachableWhile (fun _ _ => True) reachable

end Runs

/-- Every step of `T` is a run of `A`, of the actions `interpret` reads off it. -/
structure Refines (T : Transition σ ℓ) (A : Transition τ κ) (abs : σ → τ) (interpret : σ → ℓ → List κ) :
    Prop where
  init : ∀ s, T.Init s → A.Init (abs s)
  step : ∀ s l s', T.Reachable s → T.step s l = some s' → A.run (abs s) (interpret s l) = some (abs s')

/-- The actions of a run. -/
def actions (T : Transition σ ℓ) (interpret : σ → ℓ → List κ) : σ → List ℓ → List κ
  | _, [] => []
  | s, l :: labels =>
      interpret s l ++ ((T.step s l).map fun s' => actions T interpret s' labels).getD []

theorem actions_of_label (T : Transition σ ℓ) (interpret : ℓ → List κ) {s s' : σ} {labels : List ℓ}
    (ran : T.run s labels = some s') : T.actions (fun _ => interpret) s labels = labels.flatMap interpret := by
  induction labels generalizing s with
  | nil => rfl
  | cons l labels ih =>
      rw [run_cons] at ran
      obtain ⟨s₁, stepped, ran⟩ := Option.bind_eq_some_iff.1 ran
      rw [actions, stepped, List.flatMap_cons, Option.map_some, Option.getD_some, ih ran]

/-- A run with a log: what is recorded are the actions of the run. -/
theorem withHistory_run {T : Transition σ ℓ} {η : Type} (record : σ → ℓ → List η) {s s' : σ}
    {labels : List ℓ} (ran : T.run s labels = some s') (log : List η) :
    (T.withHistory record).run (s, log) labels = some (s', log ++ T.actions record s labels) := by
  induction labels generalizing s log with
  | nil =>
      cases ran
      rw [actions, List.append_nil]
      rfl
  | cons l labels ih =>
      rw [run_cons] at ran
      obtain ⟨s₁, stepped, ran⟩ := Option.bind_eq_some_iff.1 ran
      have moved : (T.withHistory record).step (s, log) l = some (s₁, log ++ record s l) := by
        show (T.step s l).map (fun s' => (s', log ++ record s l)) = _
        rw [stepped, Option.map_some]
      rw [run_cons, moved, Option.bind_some, ih ran, actions, stepped, Option.map_some, Option.getD_some,
        List.append_assoc]

section Refines

variable {T : Transition σ ℓ} {A : Transition τ κ} {abs : σ → τ} {interpret : σ → ℓ → List κ}

/-- **Runs of a refinement are runs of what it refines.** -/
theorem Refines.run (refines : Refines T A abs interpret) {s s' : σ} (reachable : T.Reachable s)
    {labels : List ℓ} (ran : T.run s labels = some s') :
    A.run (abs s) (T.actions interpret s labels) = some (abs s') := by
  induction labels generalizing s with
  | nil => cases ran; rfl
  | cons l labels ih =>
      rw [run_cons] at ran
      obtain ⟨s₁, stepped, ran⟩ := Option.bind_eq_some_iff.1 ran
      rw [actions, stepped, run_append, refines.step s l s₁ reachable stepped]
      exact ih (.step reachable trivial stepped) ran

end Refines

end Transition

end PreemptiveExecutor.Theory
