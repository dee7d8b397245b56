/-
# Registry.GroupDeadlines — the deadline a threadgroup is ranked by

The priority loop meets a threadgroup first under the smallest deadline recorded
for it.  Only the callbacks that come to the threadgroup of their own owner record
theirs; one that inherits its threadgroup does not, also where a chain that starts
in it has brought a tighter deadline.  So a threadgroup is ranked by the tightest
deadline of its callbacks exactly when every callback in it has one that came to
it with a deadline at least as tight (`rankedByTightest_iff`).
-/
import PreemptiveExecutor.Registry.ChainWeights
import PreemptiveExecutor.Registry.Records

namespace PreemptiveExecutor

open Theory
open Theory.OrderedMultimap (Least Recorded)

set_option autoImplicit false

namespace CallbackRegistry

/-- The callback has been assigned the threadgroup. -/
def AssignedTo (r : CallbackRegistry) (callbackName : String) (threadgroupId : Nat) : Prop :=
  ∃ info, r.callbackMap.lookup callbackName = some info ∧ info.threadgroupId = threadgroupId

/-- The `min_deadline`s of the callbacks in a threadgroup. -/
def memberDeadlines (r : CallbackRegistry) (threadgroupId : Nat) : Set Uint32 :=
  {deadline | ∃ callbackName, r.AssignedTo callbackName threadgroupId ∧
    r.adjacencyList.minDeadline callbackName = deadline}

/-- The deadlines of the chains that pass through a threadgroup. -/
def passingDeadlines (userChains : List UserChain) (r : CallbackRegistry) (threadgroupId : Nat) : Set Uint32 :=
  {deadline | ∃ chain ∈ userChains,
    (∃ callbackName ∈ chain.callbacks, r.AssignedTo callbackName threadgroupId) ∧ chain.deadline = deadline}

/-- The smallest deadline recorded for a threadgroup is the tightest of its
callbacks, and of the chains that pass through it. -/
def RankedByTightest (userChains : List UserChain) (s : TraversalState) : Prop :=
  ∀ id ∈ s.threadgroupCallbackMap, ∃ deadline, Least s.deadlineToThreadgroupIdMap id deadline ∧
    IsLeast (s.memberDeadlines id) deadline ∧ IsLeast (passingDeadlines userChains s.toCallbackRegistry id) deadline

/-- Every callback joins an owner to which one with a deadline at least as tight has come. -/
def TightestComes (r : CallbackRegistry) (forest : Forest) : Prop :=
  ∀ call ∈ forest, ∃ first ∈ forest, r.opens first = true ∧
    r.owner first.callbackName = r.joins forest call.callbackName ∧
    r.adjacencyList.minDeadline first.callbackName ≤ r.adjacencyList.minDeadline call.callbackName

instance (r : CallbackRegistry) (forest : Forest) : Decidable (r.TightestComes forest) :=
  inferInstanceAs (Decidable (∀ call ∈ forest, ∃ first ∈ forest, r.opens first = true ∧
    r.owner first.callbackName = r.joins forest call.callbackName ∧
    r.adjacencyList.minDeadline first.callbackName ≤ r.adjacencyList.minDeadline call.callbackName))

variable {preRegistered : PreRegisteredNames} {weakGroupsToNodes : WeakCallbackGroupsToNodesMap}
  {userChains : List UserChain} {r : CallbackRegistry} {order : IterationOrder} {stack : Nat}
  {forest : Forest} {s : TraversalState}

/-- The callbacks of a threadgroup are those that join its owner. -/
theorem assignedTo_iff {calls : List TraversalState.Call} {firsts : List FirstCall}
    (refines : TraversalState.Refines r s forest calls firsts) {o : Owner} (opened : r.Opened forest o)
    (name : String) : s.AssignedTo name (s.idOf o) ↔ name ∈ forest.names ∧ r.joins forest name = o := by
  have names := refines.names
  constructor
  · rintro ⟨info, found, isId⟩
    have visited : name ∈ forest.names :=
      (names.visited name).2 ⟨info, found, isId ▸ names.nonzero refines.sound.1 opened⟩
    refine ⟨visited, names.injective _ _ (refines.grown.joined visited) opened ?_⟩
    exact (names.joined name visited info found).symm.trans isId
  · rintro ⟨visited, rfl⟩
    obtain ⟨info, found, -⟩ := (names.visited name).1 visited
    exact ⟨info, found, names.joined name visited info found⟩

theorem minDeadline_arranged (order : IterationOrder) (adjacencyList : AdjacencyList) (name : String) :
    (order.adjacencyList adjacencyList).minDeadline name = adjacencyList.minDeadline name :=
  (subscript_adjacencyList order adjacencyList name).2.2.2.2.symm

/-- **The recorded deadlines are the tightest exactly when the tightest callbacks record.** -/
theorem records_isLeast_iff (refines : TraversalState.Refines r s forest [] [])
    (records : TraversalState.Records r forest s) :
    (∀ id ∈ s.threadgroupCallbackMap, ∃ deadline, Least s.deadlineToThreadgroupIdMap id deadline ∧
      IsLeast (s.memberDeadlines id) deadline) ↔ r.TightestComes forest := by
  have names := refines.names
  have graph := names.graph
  -- who recorded for an owner
  have recorded : ∀ o, r.Opened forest o → ∀ deadline,
      Recorded s.deadlineToThreadgroupIdMap deadline (s.idOf o) ↔ ∃ first ∈ forest, r.opens first = true ∧
        r.owner first.callbackName = o ∧ r.adjacencyList.minDeadline first.callbackName = deadline := by
    intro o opened deadline
    rw [records.deadlines]
    refine exists_congr fun first => and_congr_right fun member => and_congr_right fun opens => ?_
    refine and_congr_left' ⟨fun same => ?_, fun own => congrArg s.idOf own⟩
    exact names.injective _ _ ⟨first, member, opens, rfl⟩ opened same
  constructor
  · intro ranked call member
    have visited : call.callbackName ∈ forest.names := List.mem_map_of_mem member
    have opened := refines.grown.joined visited
    obtain ⟨deadline, least, isLeast⟩ := ranked _ (names.present opened)
    obtain ⟨first, inForest, opens, own, rfl⟩ := (recorded _ opened deadline).1 least.1
    refine ⟨first, inForest, opens, own, isLeast.2 ⟨call.callbackName, ?_, ?_⟩⟩
    · exact (assignedTo_iff refines opened _).2 ⟨visited, rfl⟩
    · rw [graph]
  · intro tightest id present
    obtain ⟨o, opened, rfl⟩ := names.onto id present
    obtain ⟨call, member, opens, own⟩ := opened
    have opened : r.Opened forest o := ⟨call, member, opens, own⟩
    obtain ⟨deadline, least⟩ := OrderedMultimap.exists_least
      ⟨_, (recorded o opened _).2 ⟨call, member, opens, own, rfl⟩⟩
    refine ⟨deadline, least, ?_, ?_⟩
    · obtain ⟨first, inForest, opens, own, rfl⟩ := (recorded o opened deadline).1 least.1
      refine ⟨first.callbackName, (assignedTo_iff refines opened _).2 ⟨List.mem_map_of_mem inForest, ?_⟩, ?_⟩
      · rw [joins_of_mem refines.grown.nodup inForest opens, own]
      · rw [graph]
    · rintro deadline' ⟨name, assigned, rfl⟩
      obtain ⟨visited, joins⟩ := (assignedTo_iff refines opened name).1 assigned
      obtain ⟨call', inForest, rfl⟩ := List.mem_map.1 visited
      obtain ⟨first, inForest', opens, own, tight⟩ := tightest call' inForest
      refine le_trans (least.2 _ ((recorded o opened _).2 ⟨first, inForest', opens, own.trans joins, rfl⟩)) ?_
      rw [graph]
      exact tight

/-- **A threadgroup is ranked by its tightest deadline exactly when no callback
inherits it with a tighter one** than those that came to it. -/
theorem rankedByTightest_iff (constructed : construct preRegistered weakGroupsToNodes userChains = .ok r)
    (long : ∀ chain ∈ userChains, 2 ≤ chain.callbacks.length)
    (traversed : traverseRoots stack (r.arrange order) = .ok s) :
    RankedByTightest userChains s ↔ ∀ forest, (r.arrange order).adjacencyList.DepthFirstForest forest →
      (r.arrange order).TightestComes forest := by
  have fresh := construct_fresh constructed order
  obtain ⟨forest, isForest, refines, records⟩ := traverseRoots_records fresh traversed
  rw [isForest.forall_iff, ← records_isLeast_iff refines records]
  constructor
  · intro ranked id present
    obtain ⟨deadline, least, isLeast, -⟩ := ranked id present
    exact ⟨deadline, least, isLeast⟩
  · intro ranked id present
    obtain ⟨deadline, least, isLeast⟩ := ranked id present
    refine ⟨deadline, least, isLeast, ?_⟩
    -- the chains through a callback have its deadline at the tightest
    obtain ⟨o, opened, rfl⟩ := refines.names.onto id present
    have through : ∀ name, s.AssignedTo name (s.idOf o) →
        IsLeast {deadline | ∃ chain ∈ userChains, name ∈ chain.callbacks ∧ chain.deadline = deadline}
          (s.adjacencyList.minDeadline name) := by
      rintro name ⟨info, found, isId⟩
      have assigned : s.Assigned name :=
        ⟨info, found, isId ▸ refines.names.nonzero refines.sound.1 opened⟩
      have visits := (traverseRoots_assigned fresh.sound fresh.unassigned traversed name).1 assigned
      rw [refines.names.graph, minDeadline_arranged]
      exact minDeadline_isLeast constructed long (visits_named constructed order visits)
    obtain ⟨⟨name, assigned, rfl⟩, lower⟩ := isLeast
    constructor
    · obtain ⟨chain, member, inChain, isDeadline⟩ := (through name assigned).1
      exact ⟨chain, member, ⟨name, inChain, assigned⟩, isDeadline⟩
    · rintro deadline' ⟨chain, member, ⟨name', inChain, assigned'⟩, rfl⟩
      exact le_trans (lower ⟨name', assigned', rfl⟩) ((through name' assigned').2 ⟨chain, member, inChain, rfl⟩)

/-! ### A chain that starts inside a threadgroup -/

def planNames : PreRegisteredNames := subscriptionNames ["sense", "plan", "act"]

def planGroups : WeakCallbackGroupsToNodesMap :=
  [⟨some (subscriptionGroup 1 .reentrant [10, 11, 12]), some 100⟩]

/-- `plan` is the only successor of `sense`, and the start of another chain. -/
def planChains (acting : Uint32) : List UserChain :=
  [{ chainName := "planning", callbacks := ["sense", "plan"], deadline := 100, period := 100 },
    { chainName := "acting", callbacks := ["plan", "act"], deadline := acting, period := 100 }]

/-- **A threadgroup with a chain of deadline 10 is ranked at 100**: `plan` inherits the
threadgroup of `sense`. -/
theorem rankedByTightest_inherited :
    ∃ r s timing r', construct planNames planGroups (planChains 10) = .ok r ∧
      (∀ chain ∈ planChains 10, 2 ≤ chain.callbacks.length) ∧
      traverseRoots 8 (r.arrange .stored) = .ok s ∧
      r.callbackThreadgroupAllocation .stored 8 = .ok (timing, r') ∧ ¬ RankedByTightest (planChains 10) s := by
  obtain ⟨r, constructed, runs⟩ := Loop.exists_ok_of_any
    (x := construct planNames planGroups (planChains 10))
    (p := fun r => (traverseRoots 8 (r.arrange .stored)).toOption.any fun s =>
      (r.callbackThreadgroupAllocation .stored 8).toOption.any fun _ =>
        s.deadlineToThreadgroupIdMap = [(100, [1])] ∧ 1 ∈ s.threadgroupCallbackMap ∧
          (s.callbackMap.lookup "plan").map CallbackInfo.threadgroupId = some 1 ∧
          s.adjacencyList.minDeadline "plan" = 10) (by decide)
  obtain ⟨s, traversed, runs⟩ := Loop.exists_ok_of_any runs
  obtain ⟨⟨timing, r'⟩, returned, runs⟩ := Loop.exists_ok_of_any runs
  obtain ⟨deadlines, present, inherits, tight⟩ := of_decide_eq_true runs
  refine ⟨r, s, timing, r', constructed, by decide, traversed, returned, fun ranked => ?_⟩
  obtain ⟨deadline, least, isLeast, -⟩ := ranked 1 present
  have isHundred : deadline = 100 := by
    have recorded := least.1
    rw [deadlines] at recorded
    simpa [OrderedMultimap.recorded_cons] using recorded
  have lower := isLeast.2 ⟨"plan", Option.map_eq_some_iff.1 inherits, rfl⟩
  rw [isHundred, tight] at lower
  exact absurd lower (by decide)

/-- With the later deadline in the chain that starts there the rank is right. -/
theorem rankedByTightest_later :
    ∃ r s, construct planNames planGroups (planChains 200) = .ok r ∧
      traverseRoots 8 (r.arrange .stored) = .ok s ∧ RankedByTightest (planChains 200) s := by
  obtain ⟨r, constructed, runs⟩ := Loop.exists_ok_of_any
    (x := construct planNames planGroups (planChains 200))
    (p := fun r => (traverseRoots 8 (r.arrange .stored)).toOption.any fun _ =>
      ((r.arrange .stored).adjacencyList.searchForest 8).toOption.any fun forest =>
          (r.arrange .stored).TightestComes forest) (by decide)
  obtain ⟨s, traversed, runs⟩ := Loop.exists_ok_of_any runs
  exact ⟨r, s, constructed, traversed, (rankedByTightest_iff constructed (by decide) traversed).2
    fun forest isForest => of_decide_eq_true (isForest.of_search runs)⟩

end CallbackRegistry

end PreemptiveExecutor
