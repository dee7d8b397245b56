/-
# Registry.Completeness — when every callback gets a threadgroup

The traversal decides by the first successor alone: where that one has indegree 1
it goes on to it and to no other.  So a callback that is only ever a later
successor of such callers is skipped, and the export throws.  That is the one
thing that can go wrong (`allocation_complete_iff`): on an acyclic graph every
callback gets a threadgroup exactly when each one that is no root is a followed
successor of some callback.
-/
import PreemptiveExecutor.Registry.Chains
import PreemptiveExecutor.Registry.Visited
import PreemptiveExecutor.Registry.Export

namespace PreemptiveExecutor

open Theory
open Theory.Search (Reaches)

set_option autoImplicit false

namespace CallbackRegistry

/-- The registry with its callback graph in the order in which it is iterated. -/
abbrev arrange (order : IterationOrder) (r : CallbackRegistry) : CallbackRegistry :=
  { r with adjacencyList := order.adjacencyList r.adjacencyList }

theorem Sound.arrange {r : CallbackRegistry} (sound : r.Sound) (order : IterationOrder) :
    (r.arrange order).Sound :=
  sound.rearranged _ (UnorderedMap.sameEntries_refl (fun _ => ⟨List.Perm.refl _, List.Perm.refl _⟩) _)

/-- With enough stack the root loop returns and has given every callback a
threadgroup, so the export, if the thread-count loop lets it happen, returns. -/
def AllAssigned (order : IterationOrder) (r : CallbackRegistry) : Prop :=
  ∃ enough, ∀ stack ≥ enough, ∃ s, traverseRoots stack (r.arrange order) = .ok s ∧
    (∀ name info, s.callbackMap.lookup name = some info → info.threadgroupId ≠ 0) ∧
    ∀ counted, countThreads stack (prioritized order s) = .ok counted →
      ∃ result, exportTimingInformation counted = .ok result

/-- The export returns when every callback has a threadgroup. -/
theorem exportTimingInformation_returns {r : CallbackRegistry}
    (assigned : ∀ name info, r.callbackMap.lookup name = some info → info.threadgroupId ≠ 0) :
    ∃ result, r.exportTimingInformation = .ok result := by
  have none_ : r.callbackMap.entries.find? (fun entry => entry.2.threadgroupId = 0) = none := by
    rw [List.find?_eq_none]
    rintro ⟨name, info⟩ member
    simpa using assigned name info (UnorderedMap.mem_entries_iff.1 member)
  unfold exportTimingInformation
  simp only [exportHandles_eq, none_]
  exact ⟨_, rfl⟩

/-- A deeper stack does not change what the root loop returns. -/
theorem traverseRoots_mono {r : CallbackRegistry} {stack stack' : Nat} {s : TraversalState}
    (deeper : stack ≤ stack') (ran : r.traverseRoots stack = .ok s) : r.traverseRoots stack' = .ok s := by
  rw [traverseRoots_eq] at ran ⊢
  exact DepthFirst.dfsAll_mono stack stack' _ _ _ deeper ran

section Graph

variable {preRegistered : PreRegisteredNames} {weakGroupsToNodes : WeakCallbackGroupsToNodesMap}
  {userChains : List UserChain} {r : CallbackRegistry}

theorem construct_unassigned (constructed : construct preRegistered weakGroupsToNodes userChains = .ok r)
    (name : String) : ¬ r.Assigned name := by
  rintro ⟨info, found, assigned⟩
  exact assigned ((construct_scanned constructed).2 name info found)

/-- A followed edge is a step of a chain. -/
theorem followed_chainStep (constructed : construct preRegistered weakGroupsToNodes userChains = .ok r)
    (order : IterationOrder) {name next : String}
    (edge : next ∈ (r.arrange order).adjacencyList.followed name) : ChainStep userChains name next :=
  construct_outgoing constructed ((outgoing_arranged order _ name).mem_iff.2
    (AdjacencyList.followed_subset_outgoing _ _ edge))

theorem visits_named (constructed : construct preRegistered weakGroupsToNodes userChains = .ok r)
    (order : IterationOrder) {name : String} (visited : (r.arrange order).Visits name) :
    Named userChains name := by
  obtain ⟨root, isRoot, reached⟩ := visited
  cases reached with
  | refl =>
      have present := (AdjacencyList.mem_roots_iff.1 isRoot).1
      exact (construct_keys constructed name).1 (((order.adjacencyList_same _).mem_iff name).2 present)
  | tail _ edge => exact (followed_chainStep constructed order edge).named.2

theorem mem_roots_of_indegree (constructed : construct preRegistered weakGroupsToNodes userChains = .ok r)
    (order : IterationOrder) {name : String} (named : Named userChains name)
    (zero : r.adjacencyList.indegree name = 0) : name ∈ (r.arrange order).adjacencyList.roots := by
  have present : name ∈ (r.arrange order).adjacencyList :=
    ((order.adjacencyList_same _).mem_iff name).1 ((construct_keys constructed name).2 named)
  exact AdjacencyList.mem_roots_iff.2 ⟨present, (indegree_arranged order _ name).trans zero⟩

/-- **Which callbacks are visited**: on an acyclic graph all of them, if each one
that is no root is followed from somewhere. -/
theorem visits_of_followed (constructed : construct preRegistered weakGroupsToNodes userChains = .ok r)
    (order : IterationOrder) (acyclic : Acyclic (ChainStep userChains))
    (followed : ∀ name, Named userChains name → r.adjacencyList.indegree name ≠ 0 →
      ∃ before, name ∈ (r.arrange order).adjacencyList.followed before) (name : String)
    (named : Named userChains name) : (r.arrange order).Visits name := by
  classical
  refine acyclic.induction_forwards r.adjacencyList.keys.toFinset
    (fun a b step => List.mem_toFinset.2 (AList.mem_keys.1 ((construct_keys constructed a).2 step.named.1)))
    (P := fun name => Named userChains name → (r.arrange order).Visits name)
    (fun name visitsBefore named => ?_) name named
  by_cases zero : r.adjacencyList.indegree name = 0
  · exact ⟨name, mem_roots_of_indegree constructed order named zero, .refl⟩
  · obtain ⟨before, edge⟩ := followed name named zero
    have step := followed_chainStep constructed order edge
    obtain ⟨root, isRoot, reached⟩ := visitsBefore before step step.named.1
    exact ⟨root, isRoot, reached.tail edge⟩

/-- **Every callback gets a threadgroup exactly when each one of nonzero indegree
is followed from some callback.** -/
theorem allocation_complete_iff
    (constructed : construct preRegistered weakGroupsToNodes userChains = .ok r)
    (acyclic : Acyclic (ChainStep userChains))
    (registered : ∀ name, name ∈ r.callbackMap ↔ Named userChains name) (order : IterationOrder) :
    AllAssigned order r ↔ ∀ name, Named userChains name → r.adjacencyList.indegree name ≠ 0 →
      ∃ before, name ∈ (r.arrange order).adjacencyList.followed before := by
  have sound := (construct_sound constructed).arrange order
  have fresh : ∀ name, ¬ (r.arrange order).Assigned name := fun name => construct_unassigned constructed name
  constructor
  · rintro ⟨enough, returns⟩ name named nonzero
    obtain ⟨s, ran, assigned, -⟩ := returns enough (Nat.le_refl _)
    have kept := (traverseRoots_invariant (r.arrange order).search.I (r.arrange order).search.keeps
      (search_start sound) enough).1 s ran
    obtain ⟨info, found⟩ := UnorderedMap.mem_iff_lookup.1 ((kept.2.2.mem_iff name).1 ((registered name).2 named))
    obtain ⟨root, isRoot, reached⟩ := (traverseRoots_assigned sound fresh ran name).1
      ⟨info, found, assigned name info found⟩
    cases reached with
    | refl =>
        have zero := (AdjacencyList.mem_roots_iff.1 isRoot).2
        exact absurd ((indegree_arranged order _ name).symm.trans zero) nonzero
    | tail _ edge => exact ⟨_, edge⟩
  · intro followed
    refine ⟨r.callbackMap.keys.length + 1, fun stack deep => ?_⟩
    obtain ⟨s, ran⟩ := traverseRoots_returns sound
      (fun name visited => (registered name).2 (visits_named constructed order visited)) deep
    have kept := (traverseRoots_invariant (r.arrange order).search.I (r.arrange order).search.keeps
      (search_start sound) stack).1 s ran
    have assigned : ∀ name info, s.callbackMap.lookup name = some info → info.threadgroupId ≠ 0 := by
      intro name info found
      have named := (registered name).1 ((kept.2.2.mem_iff name).2 (UnorderedMap.mem_iff_lookup.2 ⟨info, found⟩))
      have visited := visits_of_followed constructed order acyclic followed name named
      obtain ⟨info', found', done⟩ := (traverseRoots_assigned sound fresh ran name).2 visited
      rw [found] at found'
      cases found'
      exact done
    refine ⟨s, ran, assigned, fun counted counts => exportTimingInformation_returns ?_⟩
    have soundS := ((traverseRoots_sound sound stack).1 s ran).1
    have same := (countThreads_onlyNumThreads (prioritized_sound soundS order) stack).1 counted counts
    rw [same.callbackMap]
    exact assigned

end Graph

/-! ### Two chains that part at their first callback -/

/-- A group that holds subscriptions only. -/
def subscriptionGroup (ptr : Ptr) (type : CallbackGroupType) (subscriptions : List Ptr) : CallbackGroup :=
  { ptr, type, canBeTakenFrom := true, subscriptions, services := [], clients := [], timers := [],
    waitables := [] }

/-- The names of the subscriptions 10, 11, 12, … -/
def subscriptionNames (names : List String) : PreRegisteredNames :=
  (names.zipIdx 10).foldl (fun preRegistered entry => preRegistered.insert entry.2 entry.1) ∅

def cameraNames : PreRegisteredNames := subscriptionNames ["camera", "detect", "record"]

def cameraGroups : WeakCallbackGroupsToNodesMap :=
  [⟨some (subscriptionGroup 1 .reentrant [10, 11, 12]), some 100⟩]

def cameraChains : List UserChain :=
  [{ chainName := "detecting", callbacks := ["camera", "detect"], deadline := 10, period := 10 },
    { chainName := "recording", callbacks := ["camera", "record"], deadline := 10, period := 10 }]

theorem cameraChains_step {a b : String} (step : ChainStep cameraChains a b) :
    a = "camera" ∧ (b = "detect" ∨ b = "record") := by
  have steps_ : (a = "camera" ∧ b = "detect") ∨ (a = "camera" ∧ b = "record") := by
    simpa [ChainStep, cameraChains, steps] using step
  tauto

theorem cameraChains_acyclic : Acyclic (ChainStep cameraChains) :=
  .of_rank (fun name => if name = "camera" then 0 else 1) fun a b step => by
    obtain ⟨rfl, rfl | rfl⟩ := cameraChains_step step <;> decide

theorem mem_callbackMap_of_keys {r : CallbackRegistry} {userChains : List UserChain} {names : List String}
    (keys : r.callbackMap.keys = names) (same : ∀ name, name ∈ names ↔ Named userChains name)
    (name : String) : name ∈ r.callbackMap ↔ Named userChains name := by
  rw [AList.mem_keys, keys, same]

/-- **A divergent callback loses a successor**: both successors of `camera` have
indegree 1, so the traversal goes on to one of them only, and the export throws. -/
theorem allocation_incomplete :
    ∃ r, construct cameraNames cameraGroups cameraChains = .ok r ∧ Acyclic (ChainStep cameraChains) ∧
      (∀ name, name ∈ r.callbackMap ↔ Named cameraChains name) ∧ ¬ AllAssigned .stored r ∧
      ∃ registry, r.callbackThreadgroupAllocation .stored 4 =
        .error ⟨.runtimeError "Callback detect has not been assigned to any threadgroup", registry⟩ := by
  obtain ⟨r, constructed, runs⟩ := Loop.exists_ok_of_any
    (x := construct cameraNames cameraGroups cameraChains)
    (p := fun r => r.callbackMap.keys = ["record", "detect", "camera"] ∧
      (r.traverseRoots 4).toOption.any (fun s =>
        (s.callbackMap.lookup "detect").map CallbackInfo.threadgroupId = some 0) ∧
      (Loop.thrown (r.callbackThreadgroupAllocation .stored 4)).any fun thrown => thrown.error =
        .runtimeError "Callback detect has not been assigned to any threadgroup") (by decide)
  obtain ⟨keys, traversal, throws⟩ := of_decide_eq_true runs
  refine ⟨r, constructed, cameraChains_acyclic,
    mem_callbackMap_of_keys keys fun name => by simp [Named, cameraChains]; tauto, ?_, ?_⟩
  · rintro ⟨enough, returns⟩
    obtain ⟨s, ran, unassigned⟩ := Loop.exists_ok_of_any traversal
    obtain ⟨s', ran', assigned, -⟩ := returns (max enough 4) (Nat.le_max_left _ _)
    obtain rfl : s = s' := Except.ok.inj ((traverseRoots_mono (Nat.le_max_right _ _) ran).symm.trans ran')
    obtain ⟨info, found, zero⟩ := Option.map_eq_some_iff.1 (of_decide_eq_true unassigned)
    exact assigned "detect" info found zero
  · obtain ⟨⟨error, registry⟩, threw, same⟩ := Loop.exists_error_of_any throws
    obtain rfl := of_decide_eq_true same
    exact ⟨registry, threw⟩

/-- A straight chain is allocated completely. -/
theorem allocation_complete_straight :
    ∃ r, construct cameraNames cameraGroups
        [{ chainName := "all", callbacks := ["camera", "detect", "record"], deadline := 10, period := 10 }] =
          .ok r ∧ AllAssigned .stored r := by
  obtain ⟨r, constructed, runs⟩ := Loop.exists_ok_of_any
    (x := construct cameraNames cameraGroups
      [{ chainName := "all", callbacks := ["camera", "detect", "record"], deadline := 10, period := 10 }])
    (p := fun r => r.callbackMap.keys = ["record", "detect", "camera"] ∧
      r.adjacencyList.indegree "camera" = 0 ∧ "detect" ∈ r.adjacencyList.followed "camera" ∧
      "record" ∈ r.adjacencyList.followed "detect") (by decide)
  obtain ⟨keys, first, second, third⟩ := of_decide_eq_true runs
  refine ⟨r, constructed, (allocation_complete_iff constructed ?_
    (mem_callbackMap_of_keys keys fun name => by simp [Named]; tauto) .stored).2 ?_⟩
  · refine .of_rank (fun name => if name = "camera" then 0 else if name = "detect" then 1 else 2)
      fun a b step => ?_
    have steps_ : (a = "camera" ∧ b = "detect") ∨ (a = "detect" ∧ b = "record") := by
      simpa [ChainStep, steps] using step
    rcases steps_ with ⟨rfl, rfl⟩ | ⟨rfl, rfl⟩ <;> decide
  · intro name named nonzero
    have names : name = "camera" ∨ name = "detect" ∨ name = "record" := by simpa [Named] using named
    rcases names with rfl | rfl | rfl
    · exact absurd first nonzero
    · exact ⟨_, second⟩
    · exact ⟨_, third⟩

end CallbackRegistry

end PreemptiveExecutor
