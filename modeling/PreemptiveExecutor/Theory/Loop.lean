/-
# Theory.Loop — loops that may throw

A C++ range-for whose body may throw is `List.foldlM` in `Except`.  The rule is
the usual one: an invariant that each iteration keeps, and a property of the
errors an iteration raises.
-/
import Mathlib.Tactic.Common

namespace PreemptiveExecutor.Theory.Loop

set_option autoImplicit false

/-- A call that returns something with the property `p`, found by running it. -/
theorem exists_ok_of_any {α ε : Type} {x : Except ε α} {p : α → Bool} (found : x.toOption.any p = true) :
    ∃ a, x = .ok a ∧ p a = true := by
  cases x with
  | error e => cases found
  | ok a => exact ⟨a, rfl, found⟩

/-- What a call throws, if it does. -/
def thrown {α ε : Type} : Except ε α → Option ε
  | .error e => some e
  | .ok _ => none

theorem exists_error_of_any {α ε : Type} {x : Except ε α} {p : ε → Bool}
    (found : (thrown x).any p = true) : ∃ e, x = .error e ∧ p e = true := by
  cases x with
  | error e => exact ⟨e, rfl, found⟩
  | ok a => cases found

/-- A loop that cannot throw: what one of the iterations establishes and all keep
holds at the end. -/
theorem foldl_establishes {σ ι : Type} {body : σ → ι → σ} (P : σ → Prop) {items : List ι} {i : ι}
    (member : i ∈ items) (sets : ∀ s, P (body s i)) (keeps : ∀ s, ∀ j ∈ items, P s → P (body s j)) (s : σ) :
    P (items.foldl body s) := by
  obtain ⟨before, after, rfl⟩ := List.append_of_mem member
  rw [List.foldl_append, List.foldl_cons]
  exact List.foldlRecOn after body (sets _) fun s held j later =>
    keeps s j (List.mem_append_right _ (List.mem_cons_of_mem _ later)) held

/-- There is one way to split a list at its first item with a property. -/
theorem first_unique {ι : Type} {P : ι → Prop} {before before' after after' : List ι} {i j : ι}
    (same : before ++ i :: after = before' ++ j :: after') (none_ : ∀ k ∈ before, ¬ P k)
    (none' : ∀ k ∈ before', ¬ P k) (here : P i) (here' : P j) : before = before' := by
  induction before generalizing before' with
  | nil =>
      cases before' with
      | nil => rfl
      | cons k before' =>
          cases same
          exact absurd here (none' _ List.mem_cons_self)
  | cons k before ih =>
      obtain ⟨first, rest⟩ := List.forall_mem_cons.1 none_
      cases before' with
      | nil =>
          cases same
          exact absurd here' first
      | cons k' before' =>
          obtain ⟨rfl, others⟩ := List.cons.inj same
          rw [ih others rest (List.forall_mem_cons.1 none').2]

/-- Items converted one by one, up to the first that cannot be. -/
theorem mapM_ok_iff {ι α ε : Type} {convert : ι → Except ε α} {items : List ι} {results : List α} :
    items.mapM convert = .ok results ↔ List.Forall₂ (fun i a => convert i = .ok a) items results := by
  induction items generalizing results with
  | nil =>
      rw [List.mapM_nil]
      exact ⟨fun same => by cases same; exact .nil, fun none_ => by cases none_; rfl⟩
  | cons i items ih =>
      rw [List.mapM_cons]
      constructor
      · intro ran
        cases first : convert i with
        | error e => rw [first] at ran; cases ran
        | ok a =>
            rw [first] at ran
            cases others : items.mapM convert with
            | error e => rw [others] at ran; cases ran
            | ok as =>
                rw [others] at ran
                cases ran
                exact .cons first (ih.1 others)
      · rintro (_ | ⟨first, others⟩)
        rw [first, ih.2 others]
        rfl

variable {σ ι ε : Type} {body : σ → ι → Except ε σ}

/-- **Loop rule.**  The iterations keep `I`, and raise only errors with `E`. -/
theorem foldlM_rule (I : σ → Prop) (E : ε → Prop) (items : List ι)
    (step : ∀ s, ∀ i ∈ items, I s →
      (∀ s', body s i = .ok s' → I s') ∧ ∀ e, body s i = .error e → E e) {s : σ} (start : I s) :
    (∀ s', items.foldlM body s = .ok s' → I s') ∧ ∀ e, items.foldlM body s = .error e → E e := by
  induction items generalizing s with
  | nil => exact ⟨fun s' ran => (by cases ran; exact start), fun e ran => nomatch ran⟩
  | cons i items ih =>
      obtain ⟨here, later⟩ := List.forall_mem_cons.1 (fun j member s => step s j member)
      rw [List.foldlM_cons]
      cases first : body s i with
      | error e =>
          refine ⟨fun s' ran => (nomatch ran), fun e' ran => ?_⟩
          cases ran
          exact (here s start).2 e first
      | ok s₁ => exact ih (fun s j member => later j member s) ((here s start).1 s₁ first)

/-- The loop rule for the state a loop returns. -/
theorem foldlM_ok (I : σ → Prop) (items : List ι)
    (step : ∀ s s', ∀ i ∈ items, I s → body s i = .ok s' → I s') {s s' : σ} (start : I s)
    (ran : items.foldlM body s = .ok s') : I s' :=
  (foldlM_rule I (fun _ => True) items
    (fun s i member inv => ⟨fun s' stepped => step s s' i member inv stepped, fun _ _ => trivial⟩)
    start).1 s' ran

/-- A loop and a fold over the same items that go along with each other. -/
theorem foldlM_follows {τ : Type} (R : σ → τ → Prop) (follow : τ → ι → τ) (items : List ι)
    (step : ∀ s s' t, ∀ i ∈ items, R s t → body s i = .ok s' → R s' (follow t i)) {s s' : σ} {t : τ}
    (start : R s t) (ran : items.foldlM body s = .ok s') : R s' (items.foldl follow t) := by
  induction items generalizing s t with
  | nil => cases ran; exact start
  | cons i items ih =>
      obtain ⟨here, later⟩ := List.forall_mem_cons.1 (fun j member s s' t => step s s' t j member)
      rw [List.foldlM_cons] at ran
      cases first : body s i with
      | error e => rw [first] at ran; cases ran
      | ok s₁ =>
          rw [first] at ran
          exact ih (fun s s' t j member => later j member s s' t) (here s s₁ t start first) ran

/-- What a returning iteration says about its item holds of all items of a loop that
returns. -/
theorem foldlM_each (Q : ι → Prop) (items : List ι)
    (step : ∀ s s' i, body s i = .ok s' → Q i) {s s' : σ} (ran : items.foldlM body s = .ok s') :
    ∀ i ∈ items, Q i := by
  induction items generalizing s with
  | nil => exact fun i member => nomatch member
  | cons i items ih =>
      rw [List.foldlM_cons] at ran
      cases first : body s i with
      | error e => rw [first] at ran; cases ran
      | ok s₁ =>
          rw [first] at ran
          exact List.forall_mem_cons.2 ⟨step s s₁ i first, ih ran⟩

/-- A loop each of whose iterations appends to a list has appended all of it. -/
theorem foldlM_appends {τ : Type} (read : σ → List τ) (out : ι → List τ) (items : List ι)
    (step : ∀ s s', ∀ i ∈ items, body s i = .ok s' → read s' = read s ++ out i) {s s' : σ}
    (ran : items.foldlM body s = .ok s') : read s' = read s ++ items.flatMap out := by
  induction items generalizing s with
  | nil => cases ran; simp
  | cons i items ih =>
      obtain ⟨here, later⟩ := List.forall_mem_cons.1 (fun j member s s' => step s s' j member)
      rw [List.foldlM_cons] at ran
      cases first : body s i with
      | error e => rw [first] at ran; cases ran
      | ok s₁ =>
          rw [first] at ran
          rw [ih (fun s s' j member => later j member s s') ran, here s s₁ first, List.flatMap_cons,
            List.append_assoc]

end PreemptiveExecutor.Theory.Loop
