/-
# Registry.Deadlines — the deadline map meets threadgroups without a priority

The traversal fills the deadline map in ascending order of deadlines, and gives
no threadgroup a priority.  So the threadgroup the priority loop meets first has
none yet, also when the registry is one that an earlier call has left: either
that call gave no priorities, or it has assigned every root, and then the deadline
map of this call stays empty (`Instance.unprioritized`).
-/
import PreemptiveExecutor.Registry.Visited
import PreemptiveExecutor.Registry.Export

namespace PreemptiveExecutor

open Theory

set_option autoImplicit false

namespace CallbackRegistry

/-- No threadgroup has a priority. -/
def Unprioritized (r : CallbackRegistry) : Prop :=
  ∀ id, (UnorderedMap.subscript r.threadgroupCallbackMap id).fixedPriority = 0

/-- Every callback the root loop calls the traversal on has a threadgroup. -/
def RootsAssigned (r : CallbackRegistry) : Prop := ∀ root ∈ r.adjacencyList.roots, r.Assigned root

end CallbackRegistry

namespace TraversalState

open CallbackRegistry (Unprioritized)

/-- What the priority loop relies on: deadlines in ascending order, and no
threadgroup with a priority. -/
structure ReadyForPriorities (s : TraversalState) : Prop where
  ordered : OrderedMultimap.Ordered s.deadlineToThreadgroupIdMap
  unprioritized : Unprioritized s.toCallbackRegistry

variable {s : TraversalState}

/-- Writing to a threadgroup anything but its priority. -/
theorem ReadyForPriorities.updateThreadgroup (ready : s.ReadyForPriorities) (id : Nat)
    {f : ThreadGroupInfo → ThreadGroupInfo} (keeps : ∀ group, (f group).fixedPriority = group.fixedPriority) :
    (s.updateThreadgroup id f).ReadyForPriorities := by
  refine ⟨ready.ordered, fun id' => ?_⟩
  rw [TraversalState.updateThreadgroup, UnorderedMap.subscript_update]
  split
  · rw [keeps]; exact ready.unprioritized id
  · exact ready.unprioritized id'

theorem ReadyForPriorities.newThreadgroupId (ready : s.ReadyForPriorities) (info : CallbackInfo) :
    (s.newThreadgroupId info).2.ReadyForPriorities := by
  unfold TraversalState.newThreadgroupId
  split
  · exact ready
  · have opened : (s.generateThreadgroupId).2.ReadyForPriorities := ⟨ready.ordered, ready.unprioritized⟩
    simp only
    split
    · refine ReadyForPriorities.updateThreadgroup (s := { (s.generateThreadgroupId).2 with
        mutexThreadgroupMap := _ }) ⟨ready.ordered, ready.unprioritized⟩ _ fun _ => rfl
    · exact opened

theorem ReadyForPriorities.enterThreadgroup (ready : s.ReadyForPriorities) (callbackName : String)
    (info : CallbackInfo) : (s.enterThreadgroup callbackName info).2.ReadyForPriorities := by
  have entered := (ready.newThreadgroupId info).updateThreadgroup (s.newThreadgroupId info).1
    (f := fun group => { group with
      callbacks := group.callbacks ++ [callbackName], threadgroupId := (s.newThreadgroupId info).1 })
    fun _ => rfl
  exact ⟨entered.ordered.pushBack _ _, entered.unprioritized⟩

theorem ReadyForPriorities.visit {s' : TraversalState} {call : Call} {calls : List Call}
    (ready : s.ReadyForPriorities) (visited : visit s call = .ok (s', calls)) :
    s'.ReadyForPriorities := by
  rcases visit_ok visited with ⟨info, -, -, rfl, -⟩ | ⟨info, id, s₁, -, -, assigned, rfl, -⟩
  · exact ready
  · have entered := ready.enterThreadgroup call.callbackName info
    have ready₁ : s₁.ReadyForPriorities := by
      rw [show s₁ = (s.assignThreadgroup call.callbackName info call.threadgroupId
        call.prevThreadgroupId).2 by rw [assigned]]
      unfold assignThreadgroup
      split
      · simp only
        split
        · unfold linkThreadgroups
          split <;> exact ⟨entered.ordered, entered.unprioritized⟩
        · exact entered
      · exact ⟨ready.ordered, ready.unprioritized⟩
    unfold pushOnlySuccessor
    split
    · exact ready₁.updateThreadgroup _ fun _ => rfl
    · exact ready₁

end TraversalState

namespace CallbackRegistry

variable {r : CallbackRegistry}

/-- Every root has a threadgroup when the root loop has returned. -/
theorem traverseRoots_rootsAssigned (sound : r.Sound) {stack : Nat} {s : TraversalState}
    (ran : r.traverseRoots stack = .ok s) : RootsAssigned s.toCallbackRegistry := by
  have inv := (traverseRoots_invariant r.search.I r.search.keeps (search_start sound) stack).1 s ran
  rw [RootsAssigned, inv.2.1]
  exact traverseRoots_roots sound ran

/-- With all roots assigned the root loop does nothing. -/
theorem traverseRoots_done (done : r.RootsAssigned) (stack : Nat) :
    (∀ s, r.traverseRoots stack = .ok s → s = r.start) ∧
      ∀ thrown, r.traverseRoots stack = .error thrown → thrown.registry = r := by
  obtain ⟨returns, throws⟩ := traverseRoots_invariant
    (fun s calls => s = r.start ∧ ∀ call ∈ calls, r.Assigned call.callbackName)
    (fun s call rest s' calls ⟨same, assigned⟩ visited => by
      subst same
      rcases TraversalState.visit_ok visited with ⟨-, -, -, rfl, rfl⟩ | ⟨info, -, -, found, unassigned, -⟩
      · exact ⟨rfl, fun c member => assigned c (List.mem_cons_of_mem _ member)⟩
      · obtain ⟨info', found', nonzero⟩ := assigned call List.mem_cons_self
        exact absurd unassigned (Option.some.inj (found'.symm.trans found) ▸ nonzero))
    (r := r) ⟨rfl, fun call member => by
      obtain ⟨root, isRoot, rfl⟩ := List.mem_map.1 member
      exact done root isRoot⟩ stack
  refine ⟨fun s ran => (returns s ran).1, fun thrown ran => ?_⟩
  obtain ⟨s, calls, ⟨rfl, -⟩, left_⟩ := throws thrown ran
  exact left_

/-- The root loop gives no priorities, and orders the deadlines. -/
theorem Unprioritized.traverseRoots (unprioritized : r.Unprioritized) (stack : Nat) :
    (∀ s, r.traverseRoots stack = .ok s → s.ReadyForPriorities) ∧
      ∀ thrown, r.traverseRoots stack = .error thrown → thrown.registry.Unprioritized := by
  obtain ⟨returns, throws⟩ := traverseRoots_invariant
    (fun s _ => s.ReadyForPriorities)
    (fun _ _ _ _ _ ready visited => ready.visit visited)
    (r := r) ⟨OrderedMultimap.ordered_nil, unprioritized⟩ stack
  refine ⟨returns, fun thrown ran => ?_⟩
  obtain ⟨s, -, ready, left_⟩ := throws thrown ran
  rw [left_]
  exact ready.unprioritized

/-- A registry on which the next call finds no priorities in its way. -/
def PrioritiesFree (r : CallbackRegistry) : Prop := r.Unprioritized ∨ r.RootsAssigned

theorem PrioritiesFree.traverseRoots (free : r.PrioritiesFree) (stack : Nat) :
    (∀ s, r.traverseRoots stack = .ok s → s.deadlineToThreadgroupIdMap = [] ∨ s.ReadyForPriorities) ∧
      ∀ thrown, r.traverseRoots stack = .error thrown → thrown.registry.PrioritiesFree := by
  rcases free with unprioritized | done
  · obtain ⟨returns, throws⟩ := unprioritized.traverseRoots stack
    exact ⟨fun s ran => Or.inr (returns s ran), fun thrown ran => Or.inl (throws thrown ran)⟩
  · obtain ⟨returns, throws⟩ := traverseRoots_done done stack
    refine ⟨fun s ran => Or.inl ?_, fun thrown ran => ?_⟩
    · rw [returns s ran]
    · rw [throws thrown ran]
      exact Or.inr done

theorem RootsAssigned.of_same {r' : CallbackRegistry} (done : r.RootsAssigned)
    (callbacks : r'.callbackMap = r.callbackMap) (graph : r'.adjacencyList = r.adjacencyList) :
    r'.RootsAssigned := by
  unfold RootsAssigned Assigned
  rw [callbacks, graph]
  exact done

theorem mem_roots_arranged (order : IterationOrder) (adjacencyList : AdjacencyList) (callbackName : String) :
    callbackName ∈ (order.adjacencyList adjacencyList).roots ↔ callbackName ∈ adjacencyList.roots := by
  have same := order.adjacencyList_same adjacencyList
  rw [AdjacencyList.mem_roots, AdjacencyList.mem_roots]
  constructor
  · rintro ⟨info, found, zero⟩
    obtain ⟨info', found', -, indegree, -⟩ := same.lookup_left found
    exact ⟨info', found', indegree.trans zero⟩
  · rintro ⟨info, found, zero⟩
    obtain ⟨info', found', -, indegree, -⟩ := same.lookup_right found
    exact ⟨info', found', indegree.symm.trans zero⟩

theorem PrioritiesFree.arranged (free : r.PrioritiesFree) (order : IterationOrder) :
    PrioritiesFree { r with adjacencyList := order.adjacencyList r.adjacencyList } :=
  free.imp_right fun done root isRoot => done root ((mem_roots_arranged order _ root).1 isRoot)

/-- **No call finds priorities of an earlier one in its way.** -/
theorem Instance.prioritiesFree {preRegistered : PreRegisteredNames}
    {weakGroupsToNodes : WeakCallbackGroupsToNodesMap} {userChains : List UserChain}
    (inst : Instance preRegistered weakGroupsToNodes userChains r) : r.PrioritiesFree := by
  induction inst with
  | constructed constructed =>
      obtain ⟨-, -, noRecords, -⟩ := construct_empty constructed
      left
      rw [Unprioritized, noRecords]
      exact fun _ => rfl
  | returned before returned ih =>
      obtain ⟨-, -, -, rfl⟩ := callbackThreadgroupAllocation_exports before.sound.1 returned
      exact Or.inl fun _ => rfl
  | @threw r r' order stack what before threw ih =>
      have arranged := ih.arranged order
      have sound := before.sound.1.rearranged (order.adjacencyList r.adjacencyList)
        (UnorderedMap.sameEntries_refl (fun _ => ⟨List.Perm.refl _, List.Perm.refl _⟩) _)
      rcases callbackThreadgroupAllocation_error threw with traversal | ⟨s, traversed, later⟩
      · exact (arranged.traverseRoots stack).2 _ traversal
      · -- the traversal has returned, so every root is assigned from here on
        have done := traverseRoots_rootsAssigned sound traversed
        have soundS := ((traverseRoots_sound sound stack).1 s traversed).1
        have counts := countThreads_onlyNumThreads (prioritized_sound soundS order) stack
        rcases later with counting | ⟨counted, counted_, exporting⟩
        · have same := counts.2 _ counting
          exact Or.inr (done.of_same same.callbackMap same.callbackGraph)
        · have same := counts.1 _ counted_
          have left_ : r' = counted := exportTimingInformation_error exporting
          rw [left_]
          exact Or.inr (done.of_same same.callbackMap same.callbackGraph)

end CallbackRegistry

end PreemptiveExecutor
