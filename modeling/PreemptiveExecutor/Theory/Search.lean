/-
# Theory.Search — depth-first search over a graph

A depth-first recursion (`Theory.DepthFirst`) is a search of the graph `next` when
its state marks nodes: a visit of a marked node does nothing, a visit of an
unmarked one marks it and calls the recursion on its successors (`Searches`).

Then the search marks exactly the nodes reachable from its calls (`marked_iff`),
and a stack deeper than the number of unmarked nodes is enough (`errors_of_stack`).
-/
import Mathlib.Data.Finset.Card
import Mathlib.Logic.Relation
import PreemptiveExecutor.Theory.DepthFirst

namespace PreemptiveExecutor.Theory

open DepthFirst (dfs dfsAll)
open Relation (ReflTransGen)

set_option autoImplicit false

/-- `b` can be reached from `a` along `next`. -/
abbrev Search.Reaches {ν : Type} (next : ν → List ν) (a b : ν) : Prop :=
  ReflTransGen (fun a b => b ∈ next a) a b

/-- The recursion `visit` searches `next` while the invariant `I` holds: the
invariant is one of the state and its pending calls. -/
structure Search {σ κ ε : Type} (visit : σ → κ → Except ε (σ × List κ)) (ν : Type) where
  node : κ → ν
  next : ν → List ν
  marked : σ → ν → Prop
  I : σ → List κ → Prop
  keeps : ∀ s c rest s' cs, I s (c :: rest) → visit s c = .ok (s', cs) → I s' (cs ++ rest)
  marks : ∀ s c rest s' cs, I s (c :: rest) → visit s c = .ok (s', cs) →
    (marked s (node c) ∧ s' = s ∧ cs = []) ∨
      (¬ marked s (node c) ∧ (∀ n, marked s' n ↔ n = node c ∨ marked s n) ∧
        cs.map node = next (node c))

namespace Search

variable {σ κ ε ν : Type} {visit : σ → κ → Except ε (σ × List κ)} {overflow : σ → ε}
  (S : Search visit ν)

/-- Marked nodes have their successors marked. -/
def Closed (s : σ) : Prop := ∀ n, S.marked s n → ∀ m ∈ S.next n, S.marked s m

/-- What holds between two visits, for a search that began in `s₀` with the calls
`calls`: the successors of a node it has marked are marked or pending. -/
structure Between (s₀ : σ) (calls : List κ) (s : σ) (pending : List κ) : Prop where
  inv : S.I s pending
  grows : ∀ n, S.marked s₀ n → S.marked s n
  sound : ∀ n, S.marked s n → S.marked s₀ n ∨ ∃ c ∈ calls, Reaches S.next (S.node c) n
  pendingReached : ∀ d ∈ pending, ∃ c ∈ calls, Reaches S.next (S.node c) (S.node d)
  called : ∀ c ∈ calls, S.marked s (S.node c) ∨ S.node c ∈ pending.map S.node
  frontier : ∀ n, S.marked s n → S.marked s₀ n ∨
    ∀ m ∈ S.next n, S.marked s m ∨ m ∈ pending.map S.node

variable {S} {s₀ : σ} {calls : List κ}

theorem Between.start (inv : S.I s₀ calls) : S.Between s₀ calls s₀ calls where
  inv := inv
  grows _ old := old
  sound _ old := Or.inl old
  pendingReached d member := ⟨d, member, .refl⟩
  called _ member := Or.inr (List.mem_map_of_mem member)
  frontier _ old := Or.inl old

theorem Between.step {s s' : σ} {c : κ} {rest cs : List κ} (between : S.Between s₀ calls s (c :: rest))
    (visited : visit s c = .ok (s', cs)) : S.Between s₀ calls s' (cs ++ rest) := by
  have inv := S.keeps s c rest s' cs between.inv visited
  rcases S.marks s c rest s' cs between.inv visited with ⟨old, rfl, rfl⟩ | ⟨-, marked, nested⟩
  · -- a marked node is dropped from the pending ones
    have still : ∀ n, S.marked s' n ∨ n ∈ (c :: rest).map S.node →
        S.marked s' n ∨ n ∈ rest.map S.node := by
      rintro n (isMarked | member)
      · exact Or.inl isMarked
      · rcases List.mem_cons.1 member with rfl | member
        · exact Or.inl old
        · exact Or.inr member
    exact
      { inv
        grows := between.grows
        sound := between.sound
        pendingReached := fun d member => between.pendingReached d (List.mem_cons_of_mem _ member)
        called := fun d member => still _ (between.called d member)
        frontier := fun n isMarked => (between.frontier n isMarked).imp_right
          fun next m edge => still m (next m edge) }
  · obtain ⟨c₀, isCall, toHere⟩ := between.pendingReached c List.mem_cons_self
    have still : ∀ n, S.marked s n ∨ n ∈ (c :: rest).map S.node →
        S.marked s' n ∨ n ∈ (cs ++ rest).map S.node := by
      rintro n (isMarked | member)
      · exact Or.inl ((marked n).2 (Or.inr isMarked))
      · rcases List.mem_cons.1 member with rfl | member
        · exact Or.inl ((marked _).2 (Or.inl rfl))
        · exact Or.inr (by rw [List.map_append]; exact List.mem_append_right _ member)
    refine
      { inv
        grows := fun n old => (marked n).2 (Or.inr (between.grows n old))
        sound := fun n isMarked => ?_
        pendingReached := fun d member => ?_
        called := fun d member => still _ (between.called d member)
        frontier := fun n isMarked => ?_ }
    · rcases (marked n).1 isMarked with rfl | old
      · exact Or.inr ⟨c₀, isCall, toHere⟩
      · exact between.sound n old
    · rcases List.mem_append.1 member with inside | outside
      · have edge : S.node d ∈ S.next (S.node c) := nested ▸ List.mem_map_of_mem inside
        exact ⟨c₀, isCall, toHere.tail edge⟩
      · exact between.pendingReached d (List.mem_cons_of_mem _ outside)
    · rcases (marked n).1 isMarked with rfl | old
      · refine Or.inr fun m edge => Or.inr ?_
        rw [List.map_append, nested]
        exact List.mem_append_left _ edge
      · exact (between.frontier n old).imp_right fun next m edge => still m (next m edge)

theorem between_of_ok {n : Nat} {s : σ} (inv : S.I s₀ calls)
    (ran : dfsAll visit overflow n calls s₀ = .ok s) : S.Between s₀ calls s [] :=
  DepthFirst.dfsAll_ok (S.Between s₀ calls) (fun _ _ _ _ _ between visited => between.step visited)
    n calls [] s₀ s (by simpa using Between.start inv) ran

/-- The nodes a search is called on are marked when it returns. -/
theorem called_marked {n : Nat} {s : σ} (inv : S.I s₀ calls)
    (ran : dfsAll visit overflow n calls s₀ = .ok s) : ∀ c ∈ calls, S.marked s (S.node c) :=
  fun c isCall => ((between_of_ok inv ran).called c isCall).resolve_right (by simp)

/-- The search from a closed state ends in a closed state. -/
theorem closed_of_ok {n : Nat} {s : σ} (inv : S.I s₀ calls) (closed : S.Closed s₀)
    (ran : dfsAll visit overflow n calls s₀ = .ok s) : S.Closed s := by
  intro node isMarked m edge
  have between := between_of_ok inv ran
  rcases between.frontier node isMarked with old | next
  · exact between.grows m (closed node old m edge)
  · exact (next m edge).resolve_right (by simp)

/-- **A search marks what its calls reach**, and nothing else. -/
theorem marked_iff {n : Nat} {s : σ} (inv : S.I s₀ calls) (closed : S.Closed s₀)
    (ran : dfsAll visit overflow n calls s₀ = .ok s) (node : ν) :
    S.marked s node ↔ S.marked s₀ node ∨ ∃ c ∈ calls, Reaches S.next (S.node c) node := by
  have between := between_of_ok inv ran
  refine ⟨between.sound node, ?_⟩
  rintro (old | ⟨c, isCall, reached⟩)
  · exact between.grows node old
  · induction reached with
    | refl => exact called_marked inv ran c isCall
    | tail _ edge ih => exact closed_of_ok inv closed ran _ ih _ edge

section Stack

open Classical in
/-- The number of unmarked nodes of `nodes`. -/
noncomputable def unmarked (S : Search visit ν) (nodes : Finset ν) (s : σ) : Nat :=
  (nodes.filter fun n => ¬ S.marked s n).card

/-- **A stack deeper than the number of nodes is enough**: then only a visit can
raise an error, and it is a visit of a node the calls reach. -/
theorem errors_of_stack (nodes : Finset ν) {n : Nat} {e : ε} (inv : S.I s₀ calls)
    (within : ∀ s c rest s' cs, S.I s (c :: rest) → visit s c = .ok (s', cs) → S.node c ∈ nodes)
    (deep : nodes.card < n) (ran : dfsAll visit overflow n calls s₀ = .error e) :
    ∃ s c rest, S.Between s₀ calls s (c :: rest) ∧ visit s c = .error e := by
  classical
  have falls : ∀ s c rest s' cs, S.Between s₀ calls s (c :: rest) → visit s c = .ok (s', cs) →
      S.unmarked nodes s' ≤ S.unmarked nodes s ∧ (cs ≠ [] → S.unmarked nodes s' < S.unmarked nodes s) := by
    intro s c rest s' cs between visited
    rcases S.marks s c rest s' cs between.inv visited with ⟨-, rfl, rfl⟩ | ⟨unmarked, marked, -⟩
    · exact ⟨Nat.le_refl _, fun h => absurd rfl h⟩
    · have fewer : S.unmarked nodes s' < S.unmarked nodes s := by
        refine Finset.card_lt_card ⟨fun m member => ?_, fun all => ?_⟩
        · obtain ⟨inNodes, isUnmarked⟩ := Finset.mem_filter.1 member
          exact Finset.mem_filter.2 ⟨inNodes, fun old => isUnmarked ((marked m).2 (Or.inr old))⟩
        · have here := all (Finset.mem_filter.2 ⟨within s c rest s' cs between.inv visited, unmarked⟩)
          exact (Finset.mem_filter.1 here).2 ((marked _).2 (Or.inl rfl))
      exact ⟨Nat.le_of_lt fewer, fun _ => fewer⟩
  have start : S.Between s₀ calls s₀ (calls ++ []) := by simpa using Between.start inv
  exact (DepthFirst.dfsAll_error_of_measure (S.Between s₀ calls)
    (fun _ _ _ _ _ between visited => between.step visited) (S.unmarked nodes) falls n calls [] s₀ start
    (Nat.lt_of_le_of_lt (Finset.card_filter_le _ _) deep)).2 e ran

end Stack

end Search

end PreemptiveExecutor.Theory
