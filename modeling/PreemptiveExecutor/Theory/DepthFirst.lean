/-
# Theory.DepthFirst — depth-first recursion with side effects

`dfs visit overflow n c s` makes the call `c` in state `s` with a call stack of
depth `n`: it visits `c`, which changes the state and names the calls to make
next, and makes those in order.  An error ends the whole recursion.  Nothing is
assumed about a visited set; a visit may answer with no further calls.

The rules below all speak about the *pending* calls: the ones a state still has
to make, first to last, whatever stack frame holds them.

* `dfsAll_ok`: a property of (state, pending calls) that every visit preserves
  holds at the end, with the calls consumed; `dfsAll_error` says the same about
  the point where an error is raised.
* `dfsAll_error_of_measure`, `dfsAll_error_of_rank`: two ways to see that a
  stack of the given depth suffices -- a measure of the state that falls before
  every nested call, or a rank of the calls that falls along nesting.
* `dfsAll_simulates`: two recursions whose visits correspond have corresponding
  results.
* `dfsAll_mono`: a deeper stack does not change a result.
-/
import Mathlib.Tactic.Common

namespace PreemptiveExecutor.Theory.DepthFirst

set_option autoImplicit false

variable {σ κ ε : Type}

def dfs (visit : σ → κ → Except ε (σ × List κ)) (overflow : σ → ε) : Nat → κ → σ → Except ε σ
  | 0, _, s => .error (overflow s)
  | n + 1, c, s =>
      match visit s c with
      | .error e => .error e
      | .ok (s', cs) => cs.foldlM (fun s c => dfs visit overflow n c s) s'

/-- The calls `cs` one after the other. -/
def dfsAll (visit : σ → κ → Except ε (σ × List κ)) (overflow : σ → ε) (n : Nat)
    (cs : List κ) (s : σ) : Except ε σ :=
  cs.foldlM (fun s c => dfs visit overflow n c s) s

section Rules

variable {visit : σ → κ → Except ε (σ × List κ)} {overflow : σ → ε}

@[simp] theorem dfsAll_nil (n : Nat) (s : σ) : dfsAll visit overflow n [] s = .ok s := rfl

theorem dfsAll_cons (n : Nat) (c : κ) (cs : List κ) (s : σ) :
    dfsAll visit overflow n (c :: cs) s =
      match dfs visit overflow n c s with
      | .error e => .error e
      | .ok s' => dfsAll visit overflow n cs s' := by
  unfold dfsAll
  rw [List.foldlM_cons]
  cases dfs visit overflow n c s <;> rfl

theorem dfs_succ (n : Nat) (c : κ) (s : σ) :
    dfs visit overflow (n + 1) c s =
      match visit s c with
      | .error e => .error e
      | .ok r => dfsAll visit overflow n r.2 r.1 := by
  rw [dfs]
  cases visit s c <;> rfl

/-! ## Invariants of the state and its pending calls -/

/-- **Invariant rule.**  What every visit preserves, with the calls it names put
before the remaining ones, holds once the calls `cs` have been made. -/
theorem dfsAll_ok (I : σ → List κ → Prop)
    (step : ∀ s c rest s' cs, I s (c :: rest) → visit s c = .ok (s', cs) → I s' (cs ++ rest)) :
    ∀ (n : Nat) (cs rest : List κ) (s s' : σ), I s (cs ++ rest) →
      dfsAll visit overflow n cs s = .ok s' → I s' rest := by
  intro n
  induction n with
  | zero =>
      intro cs rest s s' inv ran
      cases cs with
      | nil => cases ran; exact inv
      | cons c cs => rw [dfsAll_cons, dfs] at ran; cases ran
  | succ n ih =>
      intro cs
      induction cs with
      | nil => intro rest s s' inv ran; cases ran; exact inv
      | cons c cs ihList =>
          intro rest s s' inv ran
          rw [dfsAll_cons, dfs_succ] at ran
          cases visited : visit s c with
          | error e => rw [visited] at ran; cases ran
          | ok r =>
              obtain ⟨s₁, nested⟩ := r
              rw [visited] at ran
              have inv₁ : I s₁ (nested ++ (cs ++ rest)) := step s c (cs ++ rest) s₁ nested inv visited
              cases inner : dfsAll visit overflow n nested s₁ with
              | error e => simp only [inner] at ran; cases ran
              | ok s₂ =>
                  simp only [inner] at ran
                  exact ihList rest s₂ s' (ih nested (cs ++ rest) s₁ s₂ inv₁ inner) ran

/-- The invariant rule at the point where an error is raised: a visit raised it,
or the stack overflowed, in a state that satisfies the invariant. -/
theorem dfsAll_error (I : σ → List κ → Prop)
    (step : ∀ s c rest s' cs, I s (c :: rest) → visit s c = .ok (s', cs) → I s' (cs ++ rest)) :
    ∀ (n : Nat) (cs rest : List κ) (s : σ) (e : ε), I s (cs ++ rest) →
      dfsAll visit overflow n cs s = .error e →
      ∃ s₁ c₁ rest₁, I s₁ (c₁ :: rest₁) ∧ (visit s₁ c₁ = .error e ∨ e = overflow s₁) := by
  intro n
  induction n with
  | zero =>
      intro cs rest s e inv ran
      cases cs with
      | nil => cases ran
      | cons c cs =>
          rw [dfsAll_cons, dfs] at ran
          cases ran
          exact ⟨s, c, cs ++ rest, inv, Or.inr rfl⟩
  | succ n ih =>
      intro cs
      induction cs with
      | nil => intro rest s e inv ran; cases ran
      | cons c cs ihList =>
          intro rest s e inv ran
          rw [dfsAll_cons, dfs_succ] at ran
          cases visited : visit s c with
          | error e' =>
              rw [visited] at ran
              cases ran
              exact ⟨s, c, cs ++ rest, inv, Or.inl visited⟩
          | ok r =>
              obtain ⟨s₁, nested⟩ := r
              rw [visited] at ran
              have inv₁ : I s₁ (nested ++ (cs ++ rest)) := step s c (cs ++ rest) s₁ nested inv visited
              cases inner : dfsAll visit overflow n nested s₁ with
              | error e' =>
                  simp only [inner] at ran
                  cases ran
                  exact ih nested (cs ++ rest) s₁ e inv₁ inner
              | ok s₂ =>
                  simp only [inner] at ran
                  exact ihList rest s₂ e (dfsAll_ok I step n nested (cs ++ rest) s₁ s₂ inv₁ inner) ran

/-! ## Enough stack -/

/-- When a measure of the state falls before every nested call, a stack deeper
than the measure is enough: only a visit can raise an error. -/
theorem dfsAll_error_of_measure (I : σ → List κ → Prop)
    (step : ∀ s c rest s' cs, I s (c :: rest) → visit s c = .ok (s', cs) → I s' (cs ++ rest))
    (μ : σ → Nat)
    (falls : ∀ s c rest s' cs, I s (c :: rest) → visit s c = .ok (s', cs) →
      μ s' ≤ μ s ∧ (cs ≠ [] → μ s' < μ s)) :
    ∀ (n : Nat) (cs rest : List κ) (s : σ), I s (cs ++ rest) → μ s < n →
      (∀ s', dfsAll visit overflow n cs s = .ok s' → μ s' ≤ μ s) ∧
      (∀ e, dfsAll visit overflow n cs s = .error e →
        ∃ s₁ c₁ rest₁, I s₁ (c₁ :: rest₁) ∧ visit s₁ c₁ = .error e) := by
  intro n
  induction n with
  | zero => intro cs rest s _ deep; exact absurd deep (Nat.not_lt_zero _)
  | succ n ih =>
      intro cs
      induction cs with
      | nil =>
          intro rest s inv deep
          exact ⟨fun s' ran => (by cases ran; exact Nat.le_refl _), fun e ran => nomatch ran⟩
      | cons c cs ihList =>
          intro rest s inv deep
          simp only [dfsAll_cons, dfs_succ]
          cases visited : visit s c with
          | error e' =>
              refine ⟨fun s' ran => (nomatch ran), fun e ran => ?_⟩
              cases ran
              exact ⟨s, c, cs ++ rest, inv, visited⟩
          | ok r =>
              obtain ⟨s₁, nested⟩ := r
              have inv₁ : I s₁ (nested ++ (cs ++ rest)) := step s c (cs ++ rest) s₁ nested inv visited
              obtain ⟨le₁, lt₁⟩ := falls s c (cs ++ rest) s₁ nested inv visited
              -- the nested calls run with the shallower stack; none of them may be made at all
              have inner : (∀ s', dfsAll visit overflow n nested s₁ = .ok s' → μ s' ≤ μ s₁) ∧
                  (∀ e, dfsAll visit overflow n nested s₁ = .error e →
                    ∃ s₂ c₂ rest₂, I s₂ (c₂ :: rest₂) ∧ visit s₂ c₂ = .error e) := by
                cases nested with
                | nil => exact ⟨fun s' ran => (by cases ran; exact Nat.le_refl _), fun e ran => nomatch ran⟩
                | cons d ds =>
                    have := lt₁ (List.cons_ne_nil d ds)
                    exact ih (d :: ds) (cs ++ rest) s₁ inv₁ (by omega)
              cases ranNested : dfsAll visit overflow n nested s₁ with
              | error e' =>
                  refine ⟨fun s' ran => (by simp only [ranNested] at ran; cases ran), fun e ran => ?_⟩
                  simp only [ranNested] at ran
                  cases ran
                  exact inner.2 _ ranNested
              | ok s₂ =>
                  have le₂ := inner.1 s₂ ranNested
                  have inv₂ := dfsAll_ok I step n nested (cs ++ rest) s₁ s₂ inv₁ ranNested
                  obtain ⟨le₃, errors⟩ := ihList rest s₂ inv₂ (by omega)
                  refine ⟨fun s' ran => ?_, fun e ran => ?_⟩
                  · simp only [ranNested] at ran
                    have := le₃ s' ran
                    omega
                  · simp only [ranNested] at ran
                    exact errors e ran

/-- When nested calls have a smaller rank than the call that names them, a stack
deeper than the ranks of the calls is enough.  `P` is what the calls have in common. -/
theorem dfsAll_error_of_rank (I : σ → Prop) (P : κ → Prop) (rank : κ → Nat)
    (step : ∀ s c s' cs, I s → P c → visit s c = .ok (s', cs) →
      I s' ∧ ∀ d ∈ cs, P d ∧ rank d < rank c) :
    ∀ (n : Nat) (cs : List κ) (s : σ), I s → (∀ c ∈ cs, P c ∧ rank c < n) →
      (∀ s', dfsAll visit overflow n cs s = .ok s' → I s') ∧
      (∀ e, dfsAll visit overflow n cs s = .error e → ∃ s₁ c₁, I s₁ ∧ visit s₁ c₁ = .error e) := by
  intro n
  induction n with
  | zero =>
      intro cs s inv deep
      cases cs with
      | nil => exact ⟨fun s' ran => (by cases ran; exact inv), fun e ran => nomatch ran⟩
      | cons c cs => exact absurd (deep c (by simp)).2 (Nat.not_lt_zero _)
  | succ n ih =>
      intro cs
      induction cs with
      | nil =>
          intro s inv _
          exact ⟨fun s' ran => (by cases ran; exact inv), fun e ran => nomatch ran⟩
      | cons c cs ihList =>
          intro s inv deep
          simp only [dfsAll_cons, dfs_succ]
          cases visited : visit s c with
          | error e' =>
              refine ⟨fun s' ran => (nomatch ran), fun e ran => ?_⟩
              cases ran
              exact ⟨s, c, inv, visited⟩
          | ok r =>
              obtain ⟨s₁, nested⟩ := r
              obtain ⟨holds, rankC⟩ := deep c (by simp)
              obtain ⟨inv₁, smaller⟩ := step s c s₁ nested inv holds visited
              have inner := ih nested s₁ inv₁ fun d member => by
                obtain ⟨holdsD, less⟩ := smaller d member
                exact ⟨holdsD, by omega⟩
              cases ranNested : dfsAll visit overflow n nested s₁ with
              | error e' =>
                  refine ⟨fun s' ran => (by simp only [ranNested] at ran; cases ran), fun e ran => ?_⟩
                  simp only [ranNested] at ran
                  cases ran
                  exact inner.2 _ ranNested
              | ok s₂ =>
                  have tail := ihList s₂ (inner.1 s₂ ranNested)
                    fun d member => deep d (List.mem_cons_of_mem _ member)
                  refine ⟨fun s' ran => ?_, fun e ran => ?_⟩
                  · simp only [ranNested] at ran; exact tail.1 s' ran
                  · simp only [ranNested] at ran; exact tail.2 e ran

/-- A recursion whose visits name the calls `next` returns only if no descent
along them is infinite. -/
theorem dfsAll_acc (I : σ → Prop) (P : κ → Prop) (next : κ → List κ)
    (step : ∀ s c s' cs, I s → P c → visit s c = .ok (s', cs) → I s' ∧ cs = next c ∧ ∀ d ∈ next c, P d) :
    ∀ (n : Nat) (cs : List κ) (s s' : σ), I s → (∀ c ∈ cs, P c) →
      dfsAll visit overflow n cs s = .ok s' → I s' ∧ ∀ c ∈ cs, Acc (fun d c => d ∈ next c) c := by
  intro n
  induction n with
  | zero =>
      intro cs s s' inv _ ran
      cases cs with
      | nil => cases ran; exact ⟨inv, fun _ member => nomatch member⟩
      | cons c cs => rw [dfsAll_cons, dfs] at ran; cases ran
  | succ n ih =>
      intro cs
      induction cs with
      | nil => intro s s' inv _ ran; cases ran; exact ⟨inv, fun _ member => nomatch member⟩
      | cons c cs ihList =>
          intro s s' inv holds ran
          obtain ⟨here, later⟩ := List.forall_mem_cons.1 holds
          rw [dfsAll_cons, dfs_succ] at ran
          cases visited : visit s c with
          | error e => rw [visited] at ran; cases ran
          | ok r =>
              obtain ⟨s₁, nested⟩ := r
              simp only [visited] at ran
              obtain ⟨inv₁, rfl, holdsNext⟩ := step s c s₁ nested inv here visited
              cases inner : dfsAll visit overflow n (next c) s₁ with
              | error e => simp only [inner] at ran; cases ran
              | ok s₂ =>
                  simp only [inner] at ran
                  obtain ⟨inv₂, accNext⟩ := ih (next c) s₁ s₂ inv₁ holdsNext inner
                  obtain ⟨inv', accRest⟩ := ihList s₂ s' inv₂ later ran
                  exact ⟨inv', List.forall_mem_cons.2 ⟨Acc.intro c accNext, accRest⟩⟩

/-- A deeper stack does not change a result. -/
theorem dfsAll_mono : ∀ (n m : Nat) (cs : List κ) (s s' : σ), n ≤ m →
    dfsAll visit overflow n cs s = .ok s' → dfsAll visit overflow m cs s = .ok s' := by
  intro n
  induction n with
  | zero =>
      intro m cs s s' _ ran
      cases cs with
      | nil => exact ran
      | cons c cs => rw [dfsAll_cons, dfs] at ran; cases ran
  | succ n ih =>
      intro m cs
      induction cs with
      | nil => intro s s' _ ran; exact ran
      | cons c cs ihList =>
          intro s s' le ran
          obtain ⟨m, rfl⟩ : ∃ k, m = k + 1 := ⟨m - 1, by omega⟩
          rw [dfsAll_cons, dfs_succ] at ran ⊢
          cases visited : visit s c with
          | error e => rw [visited] at ran; cases ran
          | ok r =>
              simp only [visited] at ran ⊢
              cases inner : dfsAll visit overflow n r.2 r.1 with
              | error e => simp only [inner] at ran; cases ran
              | ok s₂ =>
                  simp only [inner] at ran
                  simp only [ih m r.2 r.1 s₂ (by omega) inner]
                  exact ihList s₂ s' le ran

end Rules

/-! ## Simulation -/

section Simulation

variable {τ δ φ : Type} {visit : σ → κ → Except ε (σ × List κ)} {overflow : σ → ε}
  {visit' : τ → δ → Except φ (τ × List δ)}

/-- **Simulation rule.**  `R` relates the states and the pending calls of two
recursions; every successful visit of the first is matched by the second. -/
theorem dfsAll_simulates (R : σ → τ → List κ → List δ → Prop)
    (step : ∀ s t c d rest rest' s' cs, R s t (c :: rest) (d :: rest') →
      visit s c = .ok (s', cs) →
      ∃ t' ds, visit' t d = .ok (t', ds) ∧ cs.length = ds.length ∧ R s' t' (cs ++ rest) (ds ++ rest'))
    (overflow' : τ → φ) :
    ∀ (n : Nat) (cs rest : List κ) (ds rest' : List δ) (s s' : σ) (t : τ),
      cs.length = ds.length → R s t (cs ++ rest) (ds ++ rest') →
      dfsAll visit overflow n cs s = .ok s' →
      ∃ t', dfsAll visit' overflow' n ds t = .ok t' ∧ R s' t' rest rest' := by
  intro n
  induction n with
  | zero =>
      intro cs rest ds rest' s s' t len rel ran
      cases cs with
      | nil =>
          have nil : ds = [] := List.eq_nil_of_length_eq_zero len.symm
          subst nil
          cases ran
          exact ⟨t, rfl, rel⟩
      | cons c cs => rw [dfsAll_cons, dfs] at ran; cases ran
  | succ n ih =>
      intro cs
      induction cs with
      | nil =>
          intro rest ds rest' s s' t len rel ran
          have nil : ds = [] := List.eq_nil_of_length_eq_zero len.symm
          subst nil
          cases ran
          exact ⟨t, rfl, rel⟩
      | cons c cs ihList =>
          intro rest ds rest' s s' t len rel ran
          cases ds with
          | nil => simp at len
          | cons d ds =>
              rw [dfsAll_cons, dfs_succ] at ran
              cases visited : visit s c with
              | error e => rw [visited] at ran; cases ran
              | ok r =>
                  obtain ⟨s₁, nested⟩ := r
                  rw [visited] at ran
                  obtain ⟨t₁, nested', visited', len₁, rel₁⟩ :=
                    step s t c d (cs ++ rest) (ds ++ rest') s₁ nested rel visited
                  cases inner : dfsAll visit overflow n nested s₁ with
                  | error e => simp only [inner] at ran; cases ran
                  | ok s₂ =>
                      simp only [inner] at ran
                      obtain ⟨t₂, inner', rel₂⟩ := ih nested (cs ++ rest) nested' (ds ++ rest')
                        s₁ s₂ t₁ len₁ rel₁ inner
                      obtain ⟨t', ran', rel'⟩ := ihList rest ds rest' s₂ s' t₂
                        (by simpa using len) rel₂ ran
                      refine ⟨t', ?_, rel'⟩
                      rw [dfsAll_cons, dfs_succ]
                      simp only [visited', inner', ran']

end Simulation

end PreemptiveExecutor.Theory.DepthFirst
