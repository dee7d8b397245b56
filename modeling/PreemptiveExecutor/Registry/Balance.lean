/-
# Registry.Balance — thread counts add up along the threadgroup graph

A visit of the thread-count recursion sets the count of one threadgroup from the
counts there are at that moment (`updateNumThreads_eq`), and then visits its
successors again.  So when the loop returns, every threadgroup it has come to is
`balance`d: its count is the one the formula gives for the final counts.  The
others keep theirs (`countThreads_balanced`).  Without a cycle and where the root
formula yields counts, it does return (`countThreads_fixpoint`).
-/
import Mathlib.Algebra.BigOperators.Group.List.Basic
import Mathlib.Algebra.Group.Fin.Basic
import PreemptiveExecutor.Registry.Termination

namespace PreemptiveExecutor

open Theory
open Relation (ReflTransGen TransGen)

set_option autoImplicit false

namespace CallbackRegistry

/-- The thread count the formula gives for a threadgroup: the quotient of the
first callback without an incoming edge, and the 16-bit sum otherwise. -/
def balance (r : CallbackRegistry) (threadgroupId : Nat) : Except Error Uint16 :=
  let adjacency := UnorderedMap.subscript r.threadgroupAdjacencyList threadgroupId
  if adjacency.indegree = 0 then
    match (UnorderedMap.subscript r.threadgroupCallbackMap threadgroupId).callbacks with
    | [] => .error .undefinedBehaviour
    | first :: _ => rootNumThreads (UnorderedMap.subscript r.adjacencyList first)
  else .ok (adjacency.incoming.map r.numThreadsOf).sum

variable {r r₀ : CallbackRegistry}

theorem setNumThreads_setNumThreads (id : Nat) (n m : Uint16) :
    (r.setNumThreads id n).setNumThreads id m = r.setNumThreads id m := by
  simp [setNumThreads, UnorderedMap.update, AList.insert_insert]

theorem numThreadsOf_setNumThreads (id id' : Nat) (n : Uint16) :
    (r.setNumThreads id n).numThreadsOf id' = if id' = id then n else r.numThreadsOf id' := by
  simp only [setNumThreads, numThreadsOf, UnorderedMap.subscript_update]
  split <;> rfl

/-- Adding up in place, where the sum does not read itself. -/
theorem foldl_addNumThreads {id : Nat} (incoming : List Nat) (other : id ∉ incoming) (n : Uint16) :
    incoming.foldl (fun r prev => r.setNumThreads id (r.numThreadsOf id + r.numThreadsOf prev))
      (r.setNumThreads id n) = r.setNumThreads id (n + (incoming.map r.numThreadsOf).sum) := by
  induction incoming generalizing n with
  | nil => simp
  | cons prev incoming ih =>
      obtain ⟨notPrev, later⟩ := List.ne_and_not_mem_of_not_mem_cons other
      rw [List.foldl_cons, setNumThreads_setNumThreads, numThreadsOf_setNumThreads, if_pos rfl,
        numThreadsOf_setNumThreads, if_neg (Ne.symm notPrev), ih later, List.map_cons, List.sum_cons,
        add_assoc]

/-- **A visit sets the count the formula gives.** -/
theorem updateNumThreads_eq {id : Nat}
    (other : id ∉ (UnorderedMap.subscript r.threadgroupAdjacencyList id).incoming) :
    r.updateNumThreads id = (r.balance id).map (r.setNumThreads id) := by
  unfold updateNumThreads balance
  have sameList : (UnorderedMap.subscript (r.setNumThreads id 0).threadgroupCallbackMap id).callbacks =
      (UnorderedMap.subscript r.threadgroupCallbackMap id).callbacks := by
    simp [setNumThreads, UnorderedMap.subscript_update]
  simp only
  rw [sameList]
  change (if (UnorderedMap.subscript r.threadgroupAdjacencyList id).indegree = 0 then _ else _) = _
  split
  · cases (UnorderedMap.subscript r.threadgroupCallbackMap id).callbacks with
    | nil => rfl
    | cons first rest =>
        change Except.map ((r.setNumThreads id 0).setNumThreads id)
          (rootNumThreads (UnorderedMap.subscript r.adjacencyList first)) = _
        congr 1
        funext n
        exact setNumThreads_setNumThreads id 0 n
  · change Except.ok _ = Except.ok _
    congr 1
    exact (foldl_addNumThreads _ other 0).trans (by rw [zero_add])

/-! ## The loop -/

/-- The count of a threadgroup is the one the formula gives. -/
def Balances (r : CallbackRegistry) (id : Nat) : Prop := r.balance id = .ok (r.numThreadsOf id)

/-- The formula reads the lists and edges, which do not change, and the counts of
the threadgroups before. -/
theorem balance_congr {r' : CallbackRegistry} (same : AgreeButCounts r r') {id : Nat}
    (before : ∀ prev ∈ (UnorderedMap.subscript r.threadgroupAdjacencyList id).incoming,
      r'.numThreadsOf prev = r.numThreadsOf prev) : r'.balance id = r.balance id := by
  simp only [balance, same.adjacency, same.callbackGraph, same.callbacks, List.map_congr_left before]

/-- Between two visits: a threadgroup the loop comes to is balanced, or will be
visited again. -/
structure Counting (r₀ r : CallbackRegistry) (pending : List Nat) : Prop where
  same : AgreeButCounts r₀ r
  counted : ∀ id ∈ pending, r₀.Counted id
  balanced : ∀ id, r₀.Counted id → r.Balances id ∨ ∃ id' ∈ pending, ReflTransGen r₀.Edge id' id
  kept : ∀ id, ¬ r₀.Counted id → r.numThreadsOf id = r₀.numThreadsOf id

/-- What a mirrored threadgroup graph without a reachable cycle has to do with the loop. -/
structure Countable (r : CallbackRegistry) : Prop where
  mirrored : ∀ id id', id' ∈ (UnorderedMap.subscript r.threadgroupAdjacencyList id).outgoing ↔
    id ∈ (UnorderedMap.subscript r.threadgroupAdjacencyList id').incoming
  noCycle : ∀ id, r.Counted id → ¬ TransGen r.Edge id id

/-- **A visit balances its threadgroup**, and unbalances only its successors, which
are visited next. -/
theorem visitThreadgroup_balances (countable : r₀.Countable) (r : CallbackRegistry) (id : Nat)
    (rest : List Nat) (r' : CallbackRegistry) (calls : List Nat) (counting : Counting r₀ r (id :: rest))
    (visited : visitThreadgroup r id = .ok (r', calls)) : Counting r₀ r' (calls ++ rest) := by
  obtain ⟨same, counted, balanced, kept⟩ := counting
  have here := counted id List.mem_cons_self
  obtain ⟨same', rfl⟩ := visitThreadgroup_ok visited
  have edges : ∀ next, next ∈ (UnorderedMap.subscript r.threadgroupAdjacencyList id).outgoing ↔
      r₀.Edge id next := fun next => by rw [same.adjacency, Edge]
  have notSelf : id ∉ (UnorderedMap.subscript r.threadgroupAdjacencyList id).incoming := by
    rw [same.adjacency]
    exact fun loop => countable.noCycle id here (.single ((countable.mirrored id id).2 loop))
  -- the visit has set one count, to what the formula gives
  obtain ⟨n, isBalance, rfl⟩ : ∃ n, r.balance id = .ok n ∧ r' = r.setNumThreads id n := by
    unfold visitThreadgroup at visited
    rw [updateNumThreads_eq notSelf] at visited
    cases value : r.balance id with
    | error error => rw [value] at visited; cases visited
    | ok n => rw [value] at visited; cases visited; exact ⟨n, rfl, rfl⟩
  have countOf : ∀ id', (r.setNumThreads id n).numThreadsOf id' = if id' = id then n else r.numThreadsOf id' :=
    fun id' => numThreadsOf_setNumThreads id id' n
  refine ⟨same.trans same', fun next member => ?_, fun id' counted' => ?_, fun id' notCounted => ?_⟩
  · rcases List.mem_append.1 member with nested | pending
    · exact here.step ((edges next).1 nested)
    · exact counted next (List.mem_cons_of_mem _ pending)
  · by_cases isHere : id' = id
    · left
      subst isHere
      rw [Balances, countOf, if_pos rfl, ← isBalance]
      exact balance_congr same' fun prev member => by
        rw [countOf, if_neg]
        rintro rfl
        exact notSelf member
    · rcases balanced id' counted' with balances | ⟨next, member, path⟩
      · by_cases reads : id ∈ (UnorderedMap.subscript r.threadgroupAdjacencyList id').incoming
        · refine Or.inr ⟨id', List.mem_append_left _ ((edges id').2 ?_), .refl⟩
          rw [same.adjacency] at reads
          exact (countable.mirrored id id').2 reads
        · left
          rw [Balances, countOf, if_neg isHere, ← balances]
          exact balance_congr same' fun prev member => by
            rw [countOf, if_neg]
            rintro rfl
            exact reads member
      · rcases List.mem_cons.1 member with rfl | pending
        · rcases path.cases_head with rfl | ⟨next', edge, path'⟩
          · exact absurd rfl isHere
          · exact Or.inr ⟨next', List.mem_append_left _ ((edges next').2 edge), path'⟩
        · exact Or.inr ⟨next, List.mem_append_right _ pending, path⟩
  · rw [countOf, if_neg, kept id' notCounted]
    rintro rfl
    exact notCounted here

/-- **When the loop returns, every threadgroup it has come to is balanced**, and the
others have the count from before. -/
theorem countThreads_balanced
    (mirrored : ∀ id id', id' ∈ (UnorderedMap.subscript r.threadgroupAdjacencyList id).outgoing ↔
      id ∈ (UnorderedMap.subscript r.threadgroupAdjacencyList id').incoming)
    {stack : Nat} {r' : CallbackRegistry} (ran : r.countThreads stack = .ok r') :
    (∀ id, r.Counted id → r'.Balances id) ∧
      ∀ id, ¬ r.Counted id → r'.numThreadsOf id = r.numThreadsOf id := by
  have countable : r.Countable := ⟨mirrored, not_cycle_of_counted ran⟩
  rw [countThreads_eq] at ran
  have counting := DepthFirst.dfsAll_ok (Counting r) (visitThreadgroup_balances countable) stack
    r.threadgroupRoots [] r r'
    ⟨AgreeButCounts.refl r, fun id isRoot => ⟨id, by simpa using isRoot, .refl⟩,
      fun id ⟨root, isRoot, path⟩ => Or.inr ⟨root, by simpa using isRoot, path⟩, fun _ _ => rfl⟩ ran
  exact ⟨fun id counted => (counting.balanced id counted).resolve_right (by simp), counting.kept⟩

/-! ## The fixpoint -/

/-- A sum of 16-bit counts is the sum modulo 2^16. -/
theorem sum_val_mod {α : Type} (count : α → Uint16) (ids : List α) :
    (ids.map count).sum.val = (ids.map fun id => (count id).val).sum % 2 ^ 16 := by
  induction ids with
  | nil => rfl
  | cons id ids ih =>
      rw [List.map_cons, List.sum_cons, Fin.val_add, ih, List.map_cons, List.sum_cons, Nat.add_mod_mod]

theorem balance_root {id : Nat} {first : String} {count : Uint16}
    (zero : (UnorderedMap.subscript r.threadgroupAdjacencyList id).indegree = 0)
    (isFirst : (UnorderedMap.subscript r.threadgroupCallbackMap id).callbacks.head? = some first)
    (yields : rootNumThreads (UnorderedMap.subscript r.adjacencyList first) = .ok count) :
    r.balance id = .ok count := by
  obtain ⟨rest, isCons⟩ := List.head?_eq_some_iff.1 isFirst
  unfold balance
  simp only [if_pos zero, isCons, yields]

/-- Where the root formula yields a count for every threadgroup it is evaluated for,
and there is no cycle, the loop returns. -/
theorem countThreads_returns (noCycle : ∀ id, r.Counted id → ¬ TransGen r.Edge id id)
    (yields : ∀ id, r.Counted id → (UnorderedMap.subscript r.threadgroupAdjacencyList id).indegree = 0 →
      ∃ first count, (UnorderedMap.subscript r.threadgroupCallbackMap id).callbacks.head? = some first ∧
        rootNumThreads (UnorderedMap.subscript r.adjacencyList first) = .ok count) :
    ∃ enough, ∀ stack ≥ enough, ∃ r', r.countThreads stack = .ok r' := by
  obtain ⟨enough, deep⟩ := countThreads_terminates noCycle
  refine ⟨enough, fun stack isDeep => ?_⟩
  cases ran : r.countThreads stack with
  | ok r' => exact ⟨r', rfl⟩
  | error thrown =>
      obtain ⟨r₁, id, same, counted, visited | rfl⟩ := countThreads_error ran
      · unfold visitThreadgroup at visited
        cases updated : r₁.updateNumThreads id with
        | ok r₂ => rw [updated] at visited; cases visited
        | error error =>
            obtain ⟨zero, -, fails⟩ := updateNumThreads_fails updated
            rw [same.adjacency] at zero
            obtain ⟨first, count, isFirst, value⟩ := yields id counted zero
            have failed := fails first ((congrArg List.head? (same.callbacks id)).trans isFirst)
            rw [same.callbackGraph, value] at failed
            cases failed
      · exact absurd rfl (deep stack isDeep _ ran)

/-- **The thread counts are the fixpoint of the sums.**  Of any state with an acyclic
threadgroup graph that is stored at both ends of its edges, and any counts the root
formula yields, in any iteration order: the loop returns, a threadgroup it comes to
from a root has the root's count if its stored indegree is 0 and otherwise the sum
modulo 2^16 of the final counts before it, and the others have kept theirs. -/
theorem countThreads_fixpoint (order : IterationOrder) (acyclic : Acyclic r.Edge)
    (mirrored : ∀ id id', id' ∈ (UnorderedMap.subscript r.threadgroupAdjacencyList id).outgoing ↔
      id ∈ (UnorderedMap.subscript r.threadgroupAdjacencyList id').incoming)
    (rootCount : Nat → Uint16)
    (yields : ∀ id, r.Counted id → (UnorderedMap.subscript r.threadgroupAdjacencyList id).indegree = 0 →
      ∃ first, (UnorderedMap.subscript r.threadgroupCallbackMap id).callbacks.head? = some first ∧
        rootNumThreads (UnorderedMap.subscript r.adjacencyList first) = .ok (rootCount id)) :
    ∃ enough, ∀ stack ≥ enough, ∃ r', (r.arrangeThreadgroups order).countThreads stack = .ok r' ∧
      (∀ id, r.Counted id →
        if (UnorderedMap.subscript r.threadgroupAdjacencyList id).indegree = 0 then
          r'.numThreadsOf id = rootCount id
        else
          (r'.numThreadsOf id).val = ((UnorderedMap.subscript r.threadgroupAdjacencyList id).incoming.map
            fun prev => (r'.numThreadsOf prev).val).sum % 2 ^ 16) ∧
      ∀ id, ¬ r.Counted id → r'.numThreadsOf id = r.numThreadsOf id := by
  have alike := subscript_threadgroupAdjacencyList order r.threadgroupAdjacencyList
  have noCycle : ∀ id, (r.arrangeThreadgroups order).Counted id →
      ¬ TransGen (r.arrangeThreadgroups order).Edge id id := by
    intro start _ cycle
    exact acyclic start (cycle.lift id fun a b edge => (edge_arranged order a b).1 edge)
  have mirrored' : ∀ id id', id' ∈ (UnorderedMap.subscript
      (r.arrangeThreadgroups order).threadgroupAdjacencyList id).outgoing ↔
      id ∈ (UnorderedMap.subscript (r.arrangeThreadgroups order).threadgroupAdjacencyList id').incoming := by
    intro id id'
    rw [← (alike id).1.mem_iff, ← (alike id').2.mem_iff]
    exact mirrored id id'
  obtain ⟨enough, returns⟩ := countThreads_returns noCycle fun id counted zero => by
    obtain ⟨first, isFirst, value⟩ := yields id ((counted_arranged order id).1 counted)
      ((indegree_same (alike id)).symm.trans zero)
    exact ⟨first, rootCount id, isFirst, value⟩
  refine ⟨enough, fun stack deep => ?_⟩
  obtain ⟨r', ran⟩ := returns stack deep
  obtain ⟨balanced, kept⟩ := countThreads_balanced mirrored' ran
  have same := countThreads_agrees ran
  refine ⟨r', ran, fun id counted => ?_, fun id notCounted => ?_⟩
  · have balances := balanced id ((counted_arranged order id).2 counted)
    have indegree : (UnorderedMap.subscript r'.threadgroupAdjacencyList id).indegree =
        (UnorderedMap.subscript r.threadgroupAdjacencyList id).indegree := by
      rw [same.adjacency]
      exact indegree_same (alike id)
    split
    · rename_i zero
      obtain ⟨first, isFirst, value⟩ := yields id counted zero
      have root := balance_root (r := r') (indegree.trans zero) ((congrArg List.head? (same.callbacks id)).trans isFirst)
        (by rw [same.callbackGraph]; exact value)
      exact (Except.ok.inj (root.symm.trans balances)).symm
    · rename_i nonzero
      rw [Balances, balance] at balances
      simp only [indegree, if_neg nonzero] at balances
      rw [← Except.ok.inj balances, sum_val_mod, same.adjacency]
      rw [((alike id).2.map _).sum_eq]
  · exact kept id (mt (counted_arranged order id).1 notCounted)

/-! ### Two ways to one threadgroup -/

/-- Threadgroup 1 leads to 4 by way of 2 and of 3. -/
def twoWays : CallbackRegistry where
  adjacencyList := (∅ : AdjacencyList).insert "sense" { deadlines := [15], periods := [5] }
  threadgroupAdjacencyList := (((∅ : ThreadgroupAdjacencyList).insert 1 { outgoing := [2, 3] }).insert 2
    { incoming := [1], outgoing := [4] }).insert 3 { incoming := [1], outgoing := [4] } |>.insert 4
    { incoming := [2, 3] }
  threadgroupCallbackMap := (∅ : UnorderedMap Nat ThreadGroupInfo).insert 1 { threadgroupId := 1, callbacks := ["sense"] }

theorem twoWays_links (id : Nat) : UnorderedMap.subscript twoWays.threadgroupAdjacencyList id =
    if id = 4 then { incoming := [2, 3] } else if id = 3 then { incoming := [1], outgoing := [4] }
    else if id = 2 then { incoming := [1], outgoing := [4] } else if id = 1 then { outgoing := [2, 3] } else {} := by
  simp only [twoWays, UnorderedMap.subscript_insert]
  rfl

theorem twoWays_edge {id id' : Nat} :
    twoWays.Edge id id' ↔ id = 1 ∧ id' = 2 ∨ id = 1 ∧ id' = 3 ∨ id = 2 ∧ id' = 4 ∨ id = 3 ∧ id' = 4 := by
  rw [Edge, twoWays_links]
  grind

theorem countThreads_fixpoint_twoWays :
    ∃ stack r', (twoWays.arrangeThreadgroups .stored).countThreads stack = .ok r' ∧
      (r'.numThreadsOf 4).val = 6 := by
  have links := twoWays_links
  have roots : twoWays.threadgroupRoots = [1] := by decide
  have root : twoWays.Counted 1 := ⟨1, by rw [roots]; exact List.mem_cons_self, .refl⟩
  have acyclic : Acyclic twoWays.Edge := by
    refine Acyclic.of_rank (fun id => id) fun a b edge => ?_
    rw [twoWays_edge] at edge
    omega
  have mirrored : ∀ id id',
      id' ∈ (UnorderedMap.subscript twoWays.threadgroupAdjacencyList id).outgoing ↔
        id ∈ (UnorderedMap.subscript twoWays.threadgroupAdjacencyList id').incoming := by
    intro id id'
    rw [links, links]
    grind
  obtain ⟨enough, fixpoint⟩ := countThreads_fixpoint .stored acyclic mirrored (fun _ => 3) fun id counted zero => by
    obtain rfl : id = 1 := by
      obtain ⟨start, isRoot, path⟩ := counted
      rcases path.cases_tail with rfl | ⟨before, -, edge⟩
      · rw [roots] at isRoot
        exact List.mem_singleton.1 isRoot
      · rw [twoWays_edge] at edge
        rw [links] at zero
        rcases edge with ⟨-, rfl⟩ | ⟨-, rfl⟩ | ⟨-, rfl⟩ | ⟨-, rfl⟩ <;> cases zero
    exact ⟨"sense", by decide, by decide⟩
  obtain ⟨r', ran, sums, -⟩ := fixpoint enough (Nat.le_refl _)
  refine ⟨enough, r', ran, ?_⟩
  have isTwo := root.step (twoWays_edge.2 (Or.inl ⟨rfl, rfl⟩))
  have isThree := root.step (twoWays_edge.2 (Or.inr (Or.inl ⟨rfl, rfl⟩)))
  have isFour := isTwo.step (twoWays_edge.2 (Or.inr (Or.inr (Or.inl ⟨rfl, rfl⟩))))
  have one : r'.numThreadsOf 1 = 3 := by
    simpa [links, ThreadGroupAdjacencyInfo.indegree] using sums 1 root
  have two : (r'.numThreadsOf 2).val = (r'.numThreadsOf 1).val % 2 ^ 16 := by
    simpa [links, ThreadGroupAdjacencyInfo.indegree] using sums 2 isTwo
  have three : (r'.numThreadsOf 3).val = (r'.numThreadsOf 1).val % 2 ^ 16 := by
    simpa [links, ThreadGroupAdjacencyInfo.indegree] using sums 3 isThree
  have four : (r'.numThreadsOf 4).val = ((r'.numThreadsOf 2).val + (r'.numThreadsOf 3).val) % 2 ^ 16 := by
    simpa [links, ThreadGroupAdjacencyInfo.indegree] using sums 4 isFour
  rw [four, two, three, one]
  rfl

end CallbackRegistry

end PreemptiveExecutor
