/-
# Theory.VisitRun — the calls of a depth-first recursion, one after the other

`Run visit s calls made s' pending` says that the recursion, in state `s` and with the
calls `calls` to make, has made the calls of `made`, each in the state it is listed with,
and is now in state `s'` with `pending` still to make.  What a recursion does between its
start and its end is said about its runs; its result is that of a run
(`run_of_ok`, `run_of_error`).

A search enters a node at most once in a run (`Search.entered_nodup`).
-/
import PreemptiveExecutor.Theory.Search

namespace PreemptiveExecutor.Theory

open DepthFirst (dfs dfsAll)

set_option autoImplicit false

namespace DepthFirst

variable {σ κ ε : Type}

inductive Run (visit : σ → κ → Except ε (σ × List κ)) :
    σ → List κ → List (σ × κ) → σ → List κ → Prop where
  | done (s : σ) (pending : List κ) : Run visit s pending [] s pending
  | call {s s₁ s' : σ} {c : κ} {rest cs pending : List κ} {made : List (σ × κ)}
      (visited : visit s c = .ok (s₁, cs)) (later : Run visit s₁ (cs ++ rest) made s' pending) :
      Run visit s (c :: rest) ((s, c) :: made) s' pending

variable {visit : σ → κ → Except ε (σ × List κ)} {overflow : σ → ε}
  {s s₁ s₂ : σ} {calls pending : List κ} {made : List (σ × κ)}

/-- **Invariant rule** for runs. -/
theorem Run.invariant (I : σ → List κ → Prop)
    (step : ∀ s c rest s' cs, I s (c :: rest) → visit s c = .ok (s', cs) → I s' (cs ++ rest))
    (run : Run visit s calls made s₁ pending) (inv : I s calls) : I s₁ pending := by
  induction run with
  | done => exact inv
  | call visited _ ih => exact ih (step _ _ _ _ _ inv visited)

/-- One more call. -/
theorem Run.concat {c : κ} {rest cs : List κ} (run : Run visit s calls made s₁ (c :: rest))
    (visited : visit s₁ c = .ok (s₂, cs)) : Run visit s calls (made ++ [(s₁, c)]) s₂ (cs ++ rest) := by
  generalize isPending : c :: rest = pending at run
  induction run with
  | done => subst isPending; exact .call visited (.done _ _)
  | call first _ ih => exact .call first (ih visited isPending)

/-- A run is the beginning of any run from the same state that has come to its end. -/
theorem Run.rest_of_complete {made' : List (σ × κ)} (run : Run visit s calls made s₁ pending)
    (complete : Run visit s calls made' s₂ []) : ∃ made'', Run visit s₁ pending made'' s₂ [] := by
  induction run generalizing made' with
  | done => exact ⟨made', complete⟩
  | call visited _ ih =>
      cases complete with
      | call visited' later' =>
          rw [visited] at visited'
          cases visited'
          exact ih later'

theorem run_step (s₀ : σ) (calls : List κ) (s : σ) (c : κ) (rest : List κ) (s' : σ) (cs : List κ)
    (reached : ∃ made, Run visit s₀ calls made s (c :: rest)) (visited : visit s c = .ok (s', cs)) :
    ∃ made, Run visit s₀ calls made s' (cs ++ rest) := by
  obtain ⟨made, run⟩ := reached
  exact ⟨_, run.concat visited⟩

/-- What a recursion returns is where its run ends. -/
theorem run_of_ok {n : Nat} (ran : dfsAll visit overflow n calls s = .ok s₁) :
    ∃ made, Run visit s calls made s₁ [] :=
  dfsAll_ok (fun s' pending => ∃ made, Run visit s calls made s' pending) (run_step s calls) n calls [] s s₁
    ⟨[], by rw [List.append_nil]; exact .done s calls⟩ ran

end DepthFirst

namespace Search

open DepthFirst (Run)

variable {σ κ ε ν : Type} {visit : σ → κ → Except ε (σ × List κ)} {overflow : σ → ε}
  {S : Search visit ν} {s s₁ : σ} {calls pending : List κ} {made : List (σ × κ)}

/-- The search within the states of one run. -/
def along (S : Search visit ν) (s₀ : σ) (calls : List κ) : Search visit ν :=
  { S with
    I := fun s pending => S.I s pending ∧ ∃ made, Run visit s₀ calls made s pending
    keeps := fun s c rest s' cs inv visited =>
      ⟨S.keeps s c rest s' cs inv.1 visited, DepthFirst.run_step s₀ calls s c rest s' cs inv.2 visited⟩
    marks := fun s c rest s' cs inv visited => S.marks s c rest s' cs inv.1 visited }

/-- With a stack deeper than the number of nodes, a search that throws has come to a
visit that throws. -/
theorem run_of_error (nodes : Finset ν) {n : Nat} {e : ε} (inv : S.I s calls)
    (within : ∀ s c rest s' cs, S.I s (c :: rest) → visit s c = .ok (s', cs) → S.node c ∈ nodes)
    (deep : nodes.card < n) (ran : dfsAll visit overflow n calls s = .error e) :
    ∃ made s₁ c rest, Run visit s calls made s₁ (c :: rest) ∧ S.I s₁ (c :: rest) ∧ visit s₁ c = .error e := by
  obtain ⟨s₁, c, rest, between, threw⟩ := errors_of_stack (S := S.along s calls) nodes
    ⟨inv, [], .done s calls⟩ (fun s c rest s' cs inv visited => within s c rest s' cs inv.1 visited) deep ran
  obtain ⟨inv₁, made, run⟩ := between.inv
  exact ⟨made, s₁, c, rest, run, inv₁, threw⟩

theorem visit_unmarked {c : κ} {rest cs : List κ} (inv : S.I s (c :: rest)) (visited : visit s c = .ok (s₁, cs))
    (unmarked : ¬ S.marked s (S.node c)) (n : ν) : S.marked s₁ n ↔ n = S.node c ∨ S.marked s n := by
  rcases S.marks s c rest s₁ cs inv visited with ⟨marked, -⟩ | ⟨-, marks, -⟩
  · exact absurd marked unmarked
  · exact marks n

theorem visit_keeps_marks {c : κ} {rest cs : List κ} (inv : S.I s (c :: rest))
    (visited : visit s c = .ok (s₁, cs)) {n : ν} (marked : S.marked s n) : S.marked s₁ n := by
  rcases S.marks s c rest s₁ cs inv visited with ⟨-, rfl, -⟩ | ⟨-, marks, -⟩
  · exact marked
  · exact (marks n).2 (Or.inr marked)

/-- **A search enters a node at most once**: the calls of a run that find their node
unmarked are calls on different nodes. -/
theorem entered_nodup (run : Run visit s calls made s₁ pending) (inv : S.I s calls) (enters : σ × κ → Bool)
    (unmarked : ∀ s c, enters (s, c) = true → ¬ S.marked s (S.node c)) :
    ((made.filter enters).map fun call => S.node call.2).Nodup ∧
      ∀ call ∈ made.filter enters, ¬ S.marked s (S.node call.2) := by
  induction run with
  | done => exact ⟨List.nodup_nil, fun _ member => by cases member⟩
  | @call s s₂ s' c rest cs pending made visited later ih =>
      obtain ⟨nodup, fresh⟩ := ih (S.keeps _ _ _ _ _ inv visited)
      -- what is unmarked later is unmarked now
      have before : ∀ call ∈ made.filter enters, ¬ S.marked s (S.node call.2) :=
        fun call member marked => fresh call member (visit_keeps_marks inv visited marked)
      rw [List.filter_cons]
      split
      · rename_i isEntered
        have here := unmarked _ _ isEntered
        refine ⟨List.nodup_cons.2 ⟨?_, nodup⟩, List.forall_mem_cons.2 ⟨here, before⟩⟩
        rw [List.mem_map]
        rintro ⟨call, member, same⟩
        exact fresh call member ((visit_unmarked inv visited here _).2 (Or.inl same))
      · exact ⟨nodup, before⟩

end Search

end PreemptiveExecutor.Theory
