/-
# Registry.GroupEdges — the edges between threadgroups

An edge of the callback graph gets into the threadgroup graph at one visit: the one
that starts the later callback without a threadgroup.  Every later visit returns
early, so a callback with several predecessors has an edge from the threadgroup of
the first of them only, and a predecessor that goes on into another callback adds
none.  `recordsEdges_iff` says which graphs have all their edges all the same.
-/
import PreemptiveExecutor.Registry.Records

namespace PreemptiveExecutor

open Theory

set_option autoImplicit false

namespace CallbackRegistry

/-- Every edge between Reentrant callbacks of different threadgroups is one of their
threadgroups, in both directions. -/
def RecordsEdges (r counted : CallbackRegistry) : Prop :=
  ∀ before next, next ∈ r.adjacencyList.outgoing before →
    ∀ infoBefore infoNext, counted.callbackMap.lookup before = some infoBefore →
      counted.callbackMap.lookup next = some infoNext → infoBefore.isMutex = false → infoNext.isMutex = false →
      infoBefore.threadgroupId ≠ infoNext.threadgroupId →
        infoNext.threadgroupId ∈
            (UnorderedMap.subscript counted.threadgroupAdjacencyList infoBefore.threadgroupId).outgoing ∧
          infoBefore.threadgroupId ∈
            (UnorderedMap.subscript counted.threadgroupAdjacencyList infoNext.threadgroupId).incoming

/-- Where an edge leaves the threadgroup of a Reentrant callback, the threadgroup it
comes to was started from there: the first call of its head came from a callback
that had the same threadgroup and did not go on. -/
def StartsFromEach (r : CallbackRegistry) (forest : Forest) : Prop :=
  ∀ before ∈ forest.names, ∀ next ∈ forest.names, next ∈ r.adjacencyList.outgoing before →
    (r.owner before).isMutex = false → (r.owner next).isMutex = false →
      r.carries forest before ≠ r.carries forest next →
        ∃ call ∈ forest, ∃ caller ∈ call.caller, r.adjacencyList.continues caller = false ∧
          r.carries forest caller = r.carries forest before ∧
          r.owner call.callbackName = r.carries forest next

instance (r : CallbackRegistry) (forest : Forest) : Decidable (r.StartsFromEach forest) :=
  inferInstanceAs (Decidable (∀ before ∈ forest.names, ∀ next ∈ forest.names, next ∈ r.adjacencyList.outgoing before →
    (r.owner before).isMutex = false → (r.owner next).isMutex = false →
      r.carries forest before ≠ r.carries forest next →
        ∃ call ∈ forest, ∃ caller ∈ call.caller, r.adjacencyList.continues caller = false ∧
          r.carries forest caller = r.carries forest before ∧
          r.owner call.callbackName = r.carries forest next))

variable {preRegistered : PreRegisteredNames} {weakGroupsToNodes : WeakCallbackGroupsToNodesMap}
  {userChains : List UserChain} {r r' counted : CallbackRegistry} {order : IterationOrder} {stack : Nat}
  {timing : TimingExport} {forest : Forest} {s : TraversalState}

/-- An edge between the ids of two owners is one between the owners. -/
theorem mem_edges_iff {P : Owner → Owner → Prop} {ids : List Nat} {o o' : Owner}
    (names : TraversalState.Names r forest s)
    (edges : ∀ id', id' ∈ ids ↔ ∃ o₁ o₂, P o₁ o₂ ∧ s.idOf o₁ = s.idOf o ∧ s.idOf o₂ = id')
    (ends : ∀ o₁ o₂, P o₁ o₂ → r.Opened forest o₁ ∧ r.Opened forest o₂)
    (opened : r.Opened forest o) (opened' : r.Opened forest o') : s.idOf o' ∈ ids ↔ P o o' := by
  rw [edges]
  constructor
  · rintro ⟨o₁, o₂, edge, same, same'⟩
    obtain ⟨known, known'⟩ := ends o₁ o₂ edge
    obtain rfl := names.injective o₁ o known opened same
    obtain rfl := names.injective o₂ o' known' opened' same'
    exact edge
  · exact fun edge => ⟨o, o', edge, rfl, rfl⟩

namespace Allocated

variable (allocated : Allocated order stack r timing forest s counted)

include allocated

theorem callbackMap_counted : counted.callbackMap = s.callbackMap :=
  allocated.same.callbackMap

theorem lookup_of_visited {name : String} (visited : name ∈ forest.names) :
    ∃ info, counted.callbackMap.lookup name = some info := by
  rw [allocated.callbackMap_counted]
  obtain ⟨info, found, -⟩ := (allocated.refines.names.visited name).1 visited
  exact ⟨info, found⟩

/-- The callbacks of an allocation that returned are visited. -/
theorem visited_of_lookup {name : String} {info : CallbackInfo}
    (found : counted.callbackMap.lookup name = some info) : name ∈ forest.names := by
  rw [allocated.callbackMap_counted] at found
  exact allocated.ownerAllocation.visited name
    ((allocated.refines.names.same.mem_iff name).2 (UnorderedMap.mem_iff_lookup.2 ⟨info, found⟩))

theorem owner_isMutex_counted {name : String} {info : CallbackInfo}
    (found : counted.callbackMap.lookup name = some info) :
    ((r.arrange order).owner name).isMutex = info.isMutex := by
  rw [allocated.callbackMap_counted] at found
  rw [allocated.refines.names.owner found, TraversalState.owner_isMutex]

/-- A Reentrant callback is assigned the threadgroup it carries. -/
theorem threadgroupId_reentrant {name : String} {info : CallbackInfo}
    (found : counted.callbackMap.lookup name = some info) (reentrant : info.isMutex = false) :
    info.threadgroupId = s.idOf ((r.arrange order).carries forest name) := by
  have visited := allocated.visited_of_lookup found
  have kind := allocated.owner_isMutex_counted found
  rw [allocated.callbackMap_counted] at found
  rw [allocated.refines.names.joined name visited info found, joins_reentrant (kind.trans reentrant)]

/-- The thread-count loop leaves the edges as they are, up to their order. -/
theorem subscript_counted (id : Nat) :
    ThreadGroupAdjacencyInfo.Same (UnorderedMap.subscript s.threadgroupAdjacencyList id)
      (UnorderedMap.subscript counted.threadgroupAdjacencyList id) := by
  rw [allocated.same.adjacency]
  exact subscript_arranged order s id

/-- Before export the edges between two owners are their hand-overs. -/
theorem edges_iff {o o' : Owner} (opened : (r.arrange order).Opened forest o)
    (opened' : (r.arrange order).Opened forest o') :
    (s.idOf o' ∈ (UnorderedMap.subscript counted.threadgroupAdjacencyList (s.idOf o)).outgoing ∧
      s.idOf o ∈ (UnorderedMap.subscript counted.threadgroupAdjacencyList (s.idOf o')).incoming) ↔
      (r.arrange order).HandsOver forest o o' := by
  have names := allocated.refines.names
  have links := allocated.refines.links
  have handed := allocated.refines.grown.handed
  have outgoing := mem_edges_iff names (links.outgoing (s.idOf o)) handed opened opened'
  have incoming := mem_edges_iff names (links.incoming (s.idOf o')) (fun o₁ o₂ edge => (handed o₂ o₁ edge).symm)
    opened' opened
  rw [← (allocated.subscript_counted _).1.mem_iff, ← (allocated.subscript_counted _).2.mem_iff, outgoing,
    incoming, and_self]

end Allocated

/-- **All edges between threadgroups are recorded exactly if** each threadgroup is
started from all those with an edge to it. -/
theorem recordsEdges_iff (constructed : construct preRegistered weakGroupsToNodes userChains = .ok r)
    (returned : r.callbackThreadgroupAllocation order stack = .ok (timing, r'))
    (traversed : traverseRoots stack (r.arrange order) = .ok s)
    (counts : countThreads stack (prioritized order s) = .ok counted) :
    RecordsEdges r counted ↔ ∀ forest, (r.arrange order).adjacencyList.DepthFirstForest forest →
      (r.arrange order).StartsFromEach forest := by
  obtain ⟨forest, counted', allocated⟩ :=
    exists_allocated_of_traversed (construct_fresh constructed order) returned traversed
  obtain rfl : counted = counted' := Except.ok.inj (counts.symm.trans allocated.counts)
  have called := allocated.isForest.called
  have carried := allocated.refines.grown.carried
  have sameEdges : ∀ before next, next ∈ (r.arrange order).adjacencyList.outgoing before ↔
      next ∈ r.adjacencyList.outgoing before := fun before next =>
    (outgoing_arranged order r.adjacencyList before).mem_iff.symm
  rw [allocated.isForest.forall_iff]
  constructor
  · intro recorded before visited next visited' edge kind kind' apart
    obtain ⟨infoBefore, found⟩ := allocated.lookup_of_visited visited
    obtain ⟨infoNext, found'⟩ := allocated.lookup_of_visited visited'
    have reentrant := (allocated.owner_isMutex_counted found).symm.trans kind
    have reentrant' := (allocated.owner_isMutex_counted found').symm.trans kind'
    have both := recorded before next ((sameEdges before next).1 edge) infoBefore infoNext found found'
      reentrant reentrant'
    rw [allocated.threadgroupId_reentrant found reentrant, allocated.threadgroupId_reentrant found' reentrant',
      allocated.edges_iff (carried before visited) (carried next visited')] at both
    refine (handsOver_iff called).1 (both fun same => apart ?_)
    exact allocated.refines.names.injective _ _ (carried before visited) (carried next visited') same
  · intro starts before next edge infoBefore infoNext found found' reentrant reentrant' apart
    have visited := allocated.visited_of_lookup found
    have visited' := allocated.visited_of_lookup found'
    rw [allocated.threadgroupId_reentrant found reentrant,
      allocated.threadgroupId_reentrant found' reentrant'] at apart ⊢
    refine (allocated.edges_iff (carried before visited) (carried next visited')).2 ((handsOver_iff called).2 ?_)
    exact starts before visited next visited' ((sameEdges before next).2 edge)
      ((allocated.owner_isMutex_counted found).trans reentrant)
      ((allocated.owner_isMutex_counted found').trans reentrant') fun same => apart (congrArg s.idOf same)

/-! ### Two chains that meet -/

def fusionNames : PreRegisteredNames := subscriptionNames ["left", "right", "fuse"]

def fusionGroups : WeakCallbackGroupsToNodesMap :=
  [⟨some (subscriptionGroup 1 .reentrant [10, 11, 12]), some 100⟩]

def fusionChain (chainName : String) (callbacks : List String) : UserChain :=
  { chainName, callbacks, deadline := 10, period := 10 }

/-- **The second predecessor of a callback has no edge**: `fuse` is visited from `right`
first, and the visit from `left` returns early. -/
theorem recordsEdges_fusion :
    ∃ r s counted timing r', construct fusionNames fusionGroups
        [fusionChain "near" ["left", "fuse"], fusionChain "far" ["right", "fuse"]] = .ok r ∧
      traverseRoots 8 (r.arrange .stored) = .ok s ∧ countThreads 8 (prioritized .stored s) = .ok counted ∧
      r.callbackThreadgroupAllocation .stored 8 = .ok (timing, r') ∧ ¬ RecordsEdges r counted := by
  obtain ⟨r, constructed, runs⟩ := Loop.exists_ok_of_any
    (x := construct fusionNames fusionGroups
      [fusionChain "near" ["left", "fuse"], fusionChain "far" ["right", "fuse"]])
    (p := fun r => (traverseRoots 8 (r.arrange .stored)).toOption.any fun s =>
      (countThreads 8 (prioritized .stored s)).toOption.any fun counted =>
        (r.callbackThreadgroupAllocation .stored 8).toOption.any fun _ =>
          "fuse" ∈ r.adjacencyList.outgoing "left" ∧
            (counted.callbackMap.lookup "left").map (fun info => (info.isMutex, info.threadgroupId)) =
              some (false, 3) ∧
            (counted.callbackMap.lookup "fuse").map (fun info => (info.isMutex, info.threadgroupId)) =
              some (false, 2) ∧
            (UnorderedMap.subscript counted.threadgroupAdjacencyList 2).incoming = [1]) (by decide)
  obtain ⟨s, traversed, runs⟩ := Loop.exists_ok_of_any runs
  obtain ⟨counted, counts, runs⟩ := Loop.exists_ok_of_any runs
  obtain ⟨⟨timing, r'⟩, returned, runs⟩ := Loop.exists_ok_of_any runs
  obtain ⟨edge, isLeft, isFuse, incoming⟩ := of_decide_eq_true runs
  refine ⟨r, s, counted, timing, r', constructed, traversed, counts, returned, fun recorded => ?_⟩
  obtain ⟨left, found, sameLeft⟩ := Option.map_eq_some_iff.1 isLeft
  obtain ⟨fuse, found', sameFuse⟩ := Option.map_eq_some_iff.1 isFuse
  obtain ⟨reentrant, isId⟩ := Prod.mk.inj sameLeft
  obtain ⟨reentrant', isId'⟩ := Prod.mk.inj sameFuse
  have both := recorded "left" "fuse" edge left fuse found found' reentrant reentrant'
  rw [isId, isId', incoming] at both
  exact absurd (both (by decide)).2 (by decide)

/-- A chain and a copy of it have all edges: every callback but the first is started
afresh, from its one predecessor. -/
theorem recordsEdges_copied :
    ∃ r s counted timing r', construct fusionNames fusionGroups
        [fusionChain "near" ["left", "right", "fuse"], fusionChain "far" ["left", "right", "fuse"]] = .ok r ∧
      traverseRoots 8 (r.arrange .stored) = .ok s ∧ countThreads 8 (prioritized .stored s) = .ok counted ∧
      r.callbackThreadgroupAllocation .stored 8 = .ok (timing, r') ∧ RecordsEdges r counted := by
  obtain ⟨r, constructed, runs⟩ := Loop.exists_ok_of_any
    (x := construct fusionNames fusionGroups
      [fusionChain "near" ["left", "right", "fuse"], fusionChain "far" ["left", "right", "fuse"]])
    (p := fun r => (traverseRoots 8 (r.arrange .stored)).toOption.any fun s =>
      (countThreads 8 (prioritized .stored s)).toOption.any fun _ =>
        (r.callbackThreadgroupAllocation .stored 8).toOption.any fun _ =>
          ((r.arrange .stored).adjacencyList.searchForest 8).toOption.any fun forest =>
              (r.arrange .stored).StartsFromEach forest) (by decide)
  obtain ⟨s, traversed, runs⟩ := Loop.exists_ok_of_any runs
  obtain ⟨counted, counts, runs⟩ := Loop.exists_ok_of_any runs
  obtain ⟨⟨timing, r'⟩, returned, runs⟩ := Loop.exists_ok_of_any runs
  exact ⟨r, s, counted, timing, r', constructed, traversed, counts, returned,
    (recordsEdges_iff constructed returned traversed counts).2
      fun forest isForest => of_decide_eq_true (isForest.of_search runs)⟩

end CallbackRegistry

end PreemptiveExecutor
