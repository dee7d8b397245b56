/-
# Registry.Termination — when the thread-count recursion ends

`recursive_threadgroup_traversal` keeps no visited set, so it ends exactly when no
cycle of the threadgroup graph is reached from the threadgroups it is called on
(`countThreads_terminates`, `not_cycle_of_counted`).

All callbacks of a mutex group share one threadgroup, so such a cycle can close
although the callback graph has none.  `threadCount_terminates_iff` says when: a
mutex group that a Reentrant root leads to hands over, directly or through other
threadgroups, to itself.
-/
import PreemptiveExecutor.Theory.Acyclic
import PreemptiveExecutor.Registry.Completeness
import PreemptiveExecutor.Registry.Refinement

namespace PreemptiveExecutor

open Theory
open Relation (ReflTransGen TransGen)

set_option autoImplicit false

namespace CallbackRegistry

/-- An edge of the threadgroup graph. -/
def Edge (r : CallbackRegistry) (id id' : Nat) : Prop :=
  id' ∈ (UnorderedMap.subscript r.threadgroupAdjacencyList id).outgoing

/-- The threadgroups the thread-count loop comes to. -/
def Counted (r : CallbackRegistry) (id : Nat) : Prop :=
  ∃ root ∈ r.threadgroupRoots, ReflTransGen r.Edge root id

/-- The threadgroup graph has no cycle that the thread-count loop comes to, and the
loop ends with enough stack. -/
structure ThreadCountTerminates (r : CallbackRegistry) : Prop where
  noCycle : ∀ id, r.Counted id → ¬ TransGen r.Edge id id
  terminates : ∃ enough, ∀ stack ≥ enough, ∀ thrown, r.countThreads stack = .error thrown →
    thrown.error ≠ .stackOverflow

section Recursion

variable {r : CallbackRegistry}

theorem edge_present (sound : r.Sound) {id id' : Nat} (edge : r.Edge id id') :
    id' ∈ r.threadgroupCallbackMap := by
  unfold Edge at edge
  cases found : r.threadgroupAdjacencyList.lookup id with
  | none => rw [UnorderedMap.subscript, found] at edge; cases edge
  | some info =>
      rw [UnorderedMap.subscript_of_lookup found] at edge
      exact sound.edges id info found id' (List.mem_cons_of_mem _ (List.mem_append_left _ edge))

theorem Counted.present (sound : r.Sound) {id : Nat} (counted : r.Counted id) :
    id ∈ r.threadgroupCallbackMap := by
  obtain ⟨root, isRoot, path⟩ := counted
  cases path with
  | refl => exact threadgroupRoots_present sound id isRoot
  | tail _ edge => exact edge_present sound edge

/-- The threadgroups that some edge leads to. -/
def edgeTargets (r : CallbackRegistry) : Finset Nat :=
  (r.threadgroupAdjacencyList.entries.flatMap fun entry => entry.2.outgoing).toFinset

theorem Edge.mem_edgeTargets {id id' : Nat} (edge : r.Edge id id') : id' ∈ r.edgeTargets := by
  unfold Edge at edge
  cases found : r.threadgroupAdjacencyList.lookup id with
  | none => rw [UnorderedMap.subscript, found] at edge; cases edge
  | some info =>
      rw [UnorderedMap.subscript_of_lookup found] at edge
      exact List.mem_toFinset.2 (List.mem_flatMap.2 ⟨⟨id, info⟩, UnorderedMap.mem_entries_iff.2 found, edge⟩)

theorem Counted.step {id id' : Nat} (counted : r.Counted id) (edge : r.Edge id id') : r.Counted id' :=
  let ⟨root, isRoot, path⟩ := counted
  ⟨root, isRoot, path.tail edge⟩

/-- Where the loop fails: at a threadgroup that it comes to. -/
theorem countThreads_error {stack : Nat} {thrown : Thrown} (failed : r.countThreads stack = .error thrown) :
    ∃ r₁ id, AgreeButCounts r r₁ ∧ r.Counted id ∧
      (visitThreadgroup r₁ id = .error thrown ∨ thrown = stackOverflow r₁) := by
  rw [countThreads_eq] at failed
  obtain ⟨r₁, id, rest, ⟨same, counted⟩, ends⟩ := DepthFirst.dfsAll_error
    (fun r' calls => AgreeButCounts r r' ∧ ∀ id ∈ calls, r.Counted id)
    (fun r' id rest r'' calls ⟨same, counted⟩ visited => by
      obtain ⟨same', rfl⟩ := visitThreadgroup_ok visited
      refine ⟨same.trans same', fun next member => ?_⟩
      rcases List.mem_append.1 member with nested | pending
      · rw [same.adjacency] at nested
        exact (counted id List.mem_cons_self).step nested
      · exact counted next (List.mem_cons_of_mem _ pending))
    stack r.threadgroupRoots [] r thrown
    ⟨AgreeButCounts.refl r, fun id isRoot => ⟨id, by simpa using isRoot, .refl⟩⟩ failed
  exact ⟨r₁, id, same, counted id List.mem_cons_self, ends⟩

/-- **Without a cycle the recursion ends.** -/
theorem countThreads_terminates (noCycle : ∀ id, r.Counted id → ¬ TransGen r.Edge id id) :
    ∃ enough, ∀ stack ≥ enough, ∀ thrown, r.countThreads stack = .error thrown →
      thrown.error ≠ .stackOverflow := by
  refine ⟨r.edgeTargets.card + 1, fun stack deep thrown failed => ?_⟩
  rw [countThreads_eq] at failed
  obtain ⟨r₁, id, -, visited⟩ := (DepthFirst.dfsAll_error_of_rank (AgreeButCounts r) r.Counted
    (Acyclic.height r.Edge r.edgeTargets)
    (fun r₁ id r₂ calls same counted visited => by
      obtain ⟨same', rfl⟩ := visitThreadgroup_ok visited
      refine ⟨same.trans same', fun next member => ?_⟩
      rw [same.adjacency] at member
      have edge : r.Edge id next := member
      have countedNext := counted.step edge
      exact ⟨countedNext, Acyclic.height_lt edge.mem_edgeTargets (noCycle next countedNext) edge⟩)
    stack r.threadgroupRoots r (AgreeButCounts.refl r) fun root isRoot =>
      ⟨⟨root, isRoot, .refl⟩, Nat.lt_of_le_of_lt (Acyclic.height_le _ _) deep⟩).2 thrown failed
  unfold visitThreadgroup at visited
  cases updated : r₁.updateNumThreads id with
  | error error =>
      rw [updated] at visited
      cases visited
      rw [(updateNumThreads_fails updated).2.1]
      exact nofun
  | ok r₂ => rw [updated] at visited; cases visited

/-- **A thread count that returns has met no cycle.** -/
theorem not_cycle_of_counted {stack : Nat} {r' : CallbackRegistry}
    (ran : r.countThreads stack = .ok r') (id : Nat) (counted : r.Counted id) :
    ¬ TransGen r.Edge id id := by
  rw [countThreads_eq] at ran
  obtain ⟨-, acc⟩ := DepthFirst.dfsAll_acc (AgreeButCounts r) (fun _ => True)
    (fun id => (UnorderedMap.subscript r.threadgroupAdjacencyList id).outgoing)
    (fun r₁ id r₂ calls same _ visited => by
      obtain ⟨same', rfl⟩ := visitThreadgroup_ok visited
      exact ⟨same.trans same', by rw [same.adjacency], fun _ _ => trivial⟩)
    stack r.threadgroupRoots r r' (AgreeButCounts.refl r) (fun _ _ => trivial) ran
  obtain ⟨root, isRoot, path⟩ := counted
  exact not_cycle_of_acc (acc root isRoot) path

/-! ### Iteration orders -/

theorem subscript_threadgroupAdjacencyList (order : IterationOrder) (links : ThreadgroupAdjacencyList) (id : Nat) :
    ThreadGroupAdjacencyInfo.Same (UnorderedMap.subscript links id)
      (UnorderedMap.subscript (order.threadgroupAdjacencyList links) id) :=
  (order.threadgroupAdjacencyList_same links).subscript ⟨List.Perm.refl _, List.Perm.refl _⟩ id

theorem indegree_same {a b : ThreadGroupAdjacencyInfo} (same : a.Same b) :
    b.indegree = a.indegree := by
  unfold ThreadGroupAdjacencyInfo.indegree
  rw [same.2.length_eq]

/-- The registry with its threadgroup graph in an iteration order. -/
abbrev arrangeThreadgroups (order : IterationOrder) (r : CallbackRegistry) : CallbackRegistry :=
  { r with threadgroupAdjacencyList := order.threadgroupAdjacencyList r.threadgroupAdjacencyList }

theorem edge_arranged (order : IterationOrder) (id id' : Nat) :
    (r.arrangeThreadgroups order).Edge id id' ↔ r.Edge id id' :=
  (subscript_threadgroupAdjacencyList order r.threadgroupAdjacencyList id).1.mem_iff.symm

/-- The loop comes to the same threadgroups in every order. -/
theorem counted_arranged (order : IterationOrder) (id : Nat) :
    (r.arrangeThreadgroups order).Counted id ↔ r.Counted id := by
  have same := order.threadgroupAdjacencyList_same r.threadgroupAdjacencyList
  have roots : ∀ root, root ∈ (r.arrangeThreadgroups order).threadgroupRoots ↔ root ∈ r.threadgroupRoots := by
    intro root
    rw [mem_threadgroupRoots, mem_threadgroupRoots]
    constructor
    · rintro ⟨info, found, zero, reentrant⟩
      obtain ⟨info', found', alike⟩ := same.lookup_left found
      exact ⟨info', found', (indegree_same alike).symm.trans zero, reentrant⟩
    · rintro ⟨info, found, zero, reentrant⟩
      obtain ⟨info', found', alike⟩ := same.lookup_right found
      exact ⟨info', found', (indegree_same alike).trans zero, reentrant⟩
  have edges : (r.arrangeThreadgroups order).Edge = r.Edge := by
    funext a b
    exact propext (edge_arranged order a b)
  unfold Counted
  simp only [roots, edges]

end Recursion

/-! ## Threadgroups and owners -/

section Owners

variable {r : CallbackRegistry} {s : TraversalState} {forest : Forest} {order : IterationOrder}

theorem subscript_arranged (order : IterationOrder) (s : TraversalState) (id : Nat) :
    ThreadGroupAdjacencyInfo.Same (UnorderedMap.subscript s.threadgroupAdjacencyList id)
      (UnorderedMap.subscript (prioritized order s).threadgroupAdjacencyList id) :=
  subscript_threadgroupAdjacencyList order s.threadgroupAdjacencyList id

/-- The edges of the threadgroup graph are the hand-overs of the forest. -/
theorem edge_prioritized (order : IterationOrder) (links : TraversalState.Links r forest s) (id id' : Nat) :
    (prioritized order s).Edge id id' ↔
      ∃ o o', r.HandsOver forest o o' ∧ s.idOf o = id ∧ s.idOf o' = id' := by
  unfold Edge
  rw [← (subscript_arranged order s id).1.mem_iff]
  exact links.outgoing id id'

/-- The record of an owner in the thread-count loop. -/
theorem isMutexGroup_prioritized (sound : s.Sound) (names : TraversalState.Names r forest s) {o : Owner}
    (opened : r.Opened forest o) :
    (UnorderedMap.subscript (prioritized order s).threadgroupCallbackMap (s.idOf o)).isMutexGroup =
      o.isMutex := by
  obtain ⟨group, found, is⟩ := names.record o opened
  obtain ⟨group', found', same⟩ := (assignFixedPriorities_sameButPriority sound).lookup_right found
  change (UnorderedMap.subscript (assignFixedPriorities s).threadgroupCallbackMap _).isMutexGroup = _
  rw [UnorderedMap.subscript_of_lookup found', same]
  exact is.isMutexGroup

/-- A threadgroup has no incoming edge if nobody hands over to its owner. -/
theorem incoming_eq_nil_iff (links : TraversalState.Links r forest s) (grown : r.Grown forest)
    (names : TraversalState.Names r forest s) {o : Owner} (opened : r.Opened forest o) :
    (UnorderedMap.subscript s.threadgroupAdjacencyList (s.idOf o)).incoming = [] ↔
      ∀ o', ¬ r.HandsOver forest o' o := by
  rw [List.eq_nil_iff_forall_not_mem]
  constructor
  · exact fun none_ o' edge => none_ (s.idOf o') ((links.incoming _ _).2 ⟨o, o', edge, rfl, rfl⟩)
  · intro none_ id member
    obtain ⟨o₁, o', edge, same, -⟩ := (links.incoming _ _).1 member
    obtain rfl := names.injective o₁ o (grown.handed o' o₁ edge).2 opened same
    exact none_ o' edge

/-- At most one threadgroup has an edge to that of a segment, so it has indegree 0
only if there is none. -/
theorem indegree_segment (order : IterationOrder) (links : TraversalState.Links r forest s)
    (grown : r.Grown forest) (names : TraversalState.Names r forest s) {head : String} (opened : r.Opened forest (.segment head)) :
    (UnorderedMap.subscript (prioritized order s).threadgroupAdjacencyList
        (s.idOf (.segment head))).indegree = 0 ↔ ∀ o, ¬ r.HandsOver forest o (.segment head) := by
  have same := (subscript_arranged order s (s.idOf (.segment head))).2
  rw [ThreadGroupAdjacencyInfo.indegree, ← same.length_eq]
  have incoming := links.incoming (s.idOf (.segment head))
  have isFrom : ∀ id, id ∈ (UnorderedMap.subscript s.threadgroupAdjacencyList
      (s.idOf (.segment head))).incoming → ∃ o, r.HandsOver forest o (.segment head) ∧ s.idOf o = id := by
    intro id member
    obtain ⟨o, o', edge, isId, isId'⟩ := (incoming id).1 member
    obtain rfl := names.injective o _ (grown.handed o' o edge).2 opened isId
    exact ⟨o', edge, isId'⟩
  constructor
  · intro zero o edge
    have member := (incoming (s.idOf o)).2 ⟨_, o, edge, rfl, rfl⟩
    -- all members of `incoming` are this one
    have only : (UnorderedMap.subscript s.threadgroupAdjacencyList
        (s.idOf (.segment head))).incoming = [s.idOf o] := by
      refine List.perm_singleton.1 (List.perm_of_nodup_nodup_toFinset_eq (links.nodup _)
        (List.nodup_singleton _) ?_)
      ext id
      rw [List.mem_toFinset, List.mem_toFinset, List.mem_singleton]
      constructor
      · intro member'
        obtain ⟨o', edge', rfl⟩ := isFrom id member'
        rw [segment_predecessor grown.nodup edge edge']
      · rintro rfl
        exact member
    rw [only, List.length_singleton] at zero
    exact absurd zero (by decide)
  · intro none_
    rw [(incoming_eq_nil_iff links grown names opened).2 none_]
    rfl

/-- The threadgroups the thread-count loop starts from are those of the Reentrant
roots that hand over. -/
theorem mem_threadgroupRoots_iff (sound : s.Sound) (grown : r.Grown forest)
    (names : TraversalState.Names r forest s) (links : TraversalState.Links r forest s) (id : Nat) :
    id ∈ (prioritized order s).threadgroupRoots ↔
      ∃ head, r.owner head = .segment head ∧ ⟨head, none⟩ ∈ forest ∧
        (∃ o, r.HandsOver forest (.segment head) o) ∧ s.idOf (.segment head) = id := by
  have keys := (order.threadgroupAdjacencyList_same s.threadgroupAdjacencyList).mem_iff
  rw [mem_threadgroupRoots]
  constructor
  · rintro ⟨info, found, zero, reentrant⟩
    have present := (keys id).2 (UnorderedMap.mem_iff_lookup.2 ⟨info, found⟩)
    -- every key of the threadgroup graph is the id of an owner
    obtain ⟨o, opened, rfl⟩ : ∃ o, r.Opened forest o ∧ s.idOf o = id := by
      obtain ⟨id', edge | edge⟩ := links.linked id present
      · obtain ⟨o, o', handed, isId, -⟩ := (links.outgoing id id').1 edge
        exact ⟨o, (grown.handed o o' handed).1, isId⟩
      · obtain ⟨o, o', handed, isId, -⟩ := (links.incoming id id').1 edge
        exact ⟨o, (grown.handed o' o handed).2, isId⟩
    rw [isMutexGroup_prioritized sound names opened] at reentrant
    cases o with
    | mutexGroup group => cases reentrant
    | segment head =>
        rw [← UnorderedMap.subscript_of_lookup found] at zero
        have none_ := (indegree_segment order links grown names opened).1 zero
        refine ⟨head, ?_, root_of_not_handsOver opened none_, ?_, rfl⟩
        · obtain ⟨⟨name, caller⟩, -, -, own⟩ := opened
          obtain rfl : name = head := owner_segment own
          exact own
        · obtain ⟨id', edge | edge⟩ := links.linked _ present
          · obtain ⟨o, o', handed, isId, -⟩ := (links.outgoing _ id').1 edge
            obtain rfl := names.injective o _ (grown.handed o o' handed).1 opened isId
            exact ⟨o', handed⟩
          · obtain ⟨o, o', handed, isId, -⟩ := (links.incoming _ id').1 edge
            obtain rfl := names.injective o _ (grown.handed o' o handed).2 opened isId
            exact absurd handed (none_ o')
  · rintro ⟨head, own, root, ⟨o, handed⟩, rfl⟩
    have opened := (grown.handed _ o handed).1
    have edge := (edge_prioritized order links _ _).2 ⟨_, o, handed, rfl, rfl⟩
    have zero := (indegree_segment order links grown names opened).2 (grown.root root)
    unfold Edge at edge
    cases found : (prioritized order s).threadgroupAdjacencyList.lookup (s.idOf (.segment head)) with
    | none => rw [UnorderedMap.subscript, found] at edge; cases edge
    | some info =>
        rw [UnorderedMap.subscript_of_lookup found] at zero
        exact ⟨info, rfl, zero, isMutexGroup_prioritized sound names opened⟩

/-- A mutex group that a Reentrant root leads to, and that hands over to itself,
directly or through other threadgroups. -/
def Reentered (r : CallbackRegistry) (forest : Forest) (group : Ptr) : Prop :=
  (∃ root, r.owner root = .segment root ∧ ⟨root, none⟩ ∈ forest ∧
      ReflTransGen (r.HandsOver forest) (.segment root) (.mutexGroup group)) ∧
    TransGen (r.HandsOver forest) (.mutexGroup group) (.mutexGroup group)

theorem threadCountTerminates_of_refines (sound : s.Sound) (grown : r.Grown forest)
    (names : TraversalState.Names r forest s) (links : TraversalState.Links r forest s) :
    ThreadCountTerminates (prioritized order s) ↔ ∀ group, ¬ r.Reentered forest group := by
  have edges := edge_prioritized order links
  constructor
  · rintro ⟨noCycle, -⟩ group ⟨⟨root, own, isRoot, path⟩, cycle⟩
    refine noCycle (s.idOf (.mutexGroup group)) ⟨s.idOf (.segment root), ?_, ?_⟩
      (transGen_names edges cycle)
    · refine (mem_threadgroupRoots_iff sound grown names links _).2 ⟨root, own, isRoot, ?_, rfl⟩
      cases path.cases_head with
      | inl same => cases same
      | inr first => exact ⟨first.choose, first.choose_spec.1⟩
    · exact path.lift s.idOf fun o o' edge => (edges _ _).2 ⟨o, o', edge, rfl, rfl⟩
  · intro none_
    have noCycle : ∀ id, (prioritized order s).Counted id → ¬ TransGen (prioritized order s).Edge id id := by
      rintro id ⟨root, isRoot, path⟩ cycle
      obtain ⟨head, own, inForest, ⟨first, handed⟩, rfl⟩ :=
        (mem_threadgroupRoots_iff sound grown names links root).1 isRoot
      have opened := (grown.handed _ first handed).1
      -- the path and the cycle are ones of hand-overs
      obtain ⟨o, openedO, rfl, path'⟩ : ∃ o, r.Opened forest o ∧ s.idOf o = id ∧
          ReflTransGen (r.HandsOver forest) (.segment head) o := by
        rcases Relation.reflTransGen_iff_eq_or_transGen.1 path with rfl | path
        · exact ⟨_, opened, rfl, .refl⟩
        · obtain ⟨o, openedO, isId, path'⟩ :=
            transGen_of_names edges grown.handed names.injective opened path
          exact ⟨o, openedO, isId, path'.to_reflTransGen⟩
      obtain ⟨o', opened', same, cycle'⟩ :=
        transGen_of_names edges grown.handed names.injective openedO cycle
      obtain rfl := names.injective o' o opened' openedO same
      obtain ⟨group, toGroup, cycleGroup⟩ := grown.cycle cycle'
      exact none_ group ⟨⟨head, own, inForest, path'.trans toGroup⟩, cycleGroup⟩
    exact ⟨noCycle, countThreads_terminates noCycle⟩

end Owners

/-! ## Constructed registries -/

section Constructed

variable {preRegistered : PreRegisteredNames} {weakGroupsToNodes : WeakCallbackGroupsToNodesMap}
  {userChains : List UserChain} {r : CallbackRegistry}

theorem construct_fresh (constructed : construct preRegistered weakGroupsToNodes userChains = .ok r)
    (order : IterationOrder) : (r.arrange order).Fresh := by
  obtain ⟨noEdges, noGroups, noRecords, -⟩ := construct_empty constructed
  exact ⟨(construct_sound constructed).arrange order, fun name => construct_unassigned constructed name,
    noEdges, noGroups, noRecords⟩

/-- **The thread-count pass ends exactly when no mutex group is reentered** in the
depth-first forest of the callback graph. -/
theorem threadCount_terminates_iff
    (constructed : construct preRegistered weakGroupsToNodes userChains = .ok r) {order : IterationOrder}
    {stack : Nat} {s : TraversalState} (ran : traverseRoots stack (r.arrange order) = .ok s) :
    ThreadCountTerminates (prioritized order s) ↔
      ∀ forest, (r.arrange order).adjacencyList.DepthFirstForest forest →
        ∀ group, ¬ (r.arrange order).Reentered forest group := by
  obtain ⟨forest, isForest, refines⟩ := traverseRoots_refines (construct_fresh constructed order) ran
  rw [threadCountTerminates_of_refines refines.sound.1 refines.grown refines.names refines.links,
    isForest.forall_iff]

end Constructed

/-! ### Two chains through one mutex group -/

def lockNames : PreRegisteredNames := subscriptionNames ["sense", "lock", "plan", "unlock"]

/-- `lock` and `unlock` are in one mutex group. -/
def lockGroups : WeakCallbackGroupsToNodesMap :=
  [⟨some (subscriptionGroup 1 .reentrant [10, 12]), some 100⟩,
    ⟨some (subscriptionGroup 2 .mutuallyExclusive [11, 13]), some 100⟩]

def lockChains (callbacks : List String) : List UserChain :=
  [{ chainName := "fast", callbacks, deadline := 10, period := 10 },
    { chainName := "slow", callbacks, deadline := 10, period := 10 }]

def lockingChain (callbacks : List String) : List UserChain :=
  [{ chainName := "locking", callbacks, deadline := 10, period := 10 }]

/-- **The threadgroup graph of an acyclic callback graph can have a cycle**: every
callback but the first has indegree 2, so the traversal restarts in `lock`, `plan`
and `unlock`, and the group of `lock` and `unlock` is linked to `plan` and back. -/
theorem threadCount_cycles :
    ∃ r s, construct lockNames lockGroups (lockChains ["sense", "lock", "plan", "unlock"]) = .ok r ∧
      Acyclic (ChainStep (lockChains ["sense", "lock", "plan", "unlock"])) ∧
      traverseRoots 8 (r.arrange .stored) = .ok s ∧ ¬ ThreadCountTerminates (prioritized .stored s) ∧
      ∀ stack r', countThreads stack (prioritized .stored s) ≠ .ok r' := by
  obtain ⟨r, constructed, runs⟩ := Loop.exists_ok_of_any
    (x := construct lockNames lockGroups (lockChains ["sense", "lock", "plan", "unlock"]))
    (p := fun r => (traverseRoots 8 (r.arrange .stored)).toOption.any fun s =>
      1 ∈ (prioritized .stored s).threadgroupRoots ∧
        2 ∈ (UnorderedMap.subscript s.threadgroupAdjacencyList 1).outgoing ∧
        3 ∈ (UnorderedMap.subscript s.threadgroupAdjacencyList 2).outgoing ∧
        2 ∈ (UnorderedMap.subscript s.threadgroupAdjacencyList 3).outgoing) (by decide)
  obtain ⟨s, ran, runs⟩ := Loop.exists_ok_of_any runs
  obtain ⟨isRoot, first, there, back⟩ := of_decide_eq_true runs
  have counted : (prioritized .stored s).Counted 2 := ⟨1, isRoot, .single first⟩
  have cycle : TransGen (prioritized .stored s).Edge 2 2 := .head there (.single back)
  have sound := ((traverseRoots_sound ((construct_sound constructed).arrange .stored) 8).1 s ran).1
  refine ⟨r, s, constructed, ?_, ran, fun ends => ends.noCycle 2 counted cycle, fun stack r' counts =>
    not_cycle_of_counted counts 2 counted cycle⟩
  refine .of_rank (fun name => if name = "sense" then 0 else if name = "lock" then 1
    else if name = "plan" then 2 else 3) fun a b step => ?_
  have steps_ : (a = "sense" ∧ b = "lock") ∨ (a = "lock" ∧ b = "plan") ∨ (a = "plan" ∧ b = "unlock") := by
    simpa [ChainStep, lockChains, steps] using step
  rcases steps_ with ⟨rfl, rfl⟩ | ⟨rfl, rfl⟩ | ⟨rfl, rfl⟩ <;> decide

/-- Without the way back the pass ends. -/
theorem threadCount_terminates_oneWay :
    ∃ r s, construct lockNames lockGroups (lockChains ["sense", "lock"]) = .ok r ∧
      traverseRoots 8 (r.arrange .stored) = .ok s ∧ ThreadCountTerminates (prioritized .stored s) := by
  obtain ⟨r, constructed, runs⟩ := Loop.exists_ok_of_any
    (x := construct lockNames lockGroups (lockChains ["sense", "lock"]))
    (p := fun r => (traverseRoots 8 (r.arrange .stored)).toOption.any fun _ =>
      ((r.arrange .stored).adjacencyList.searchForest 8).toOption.any fun forest =>
          (r.arrange .stored).handovers forest = [(.segment "sense", .mutexGroup 2)]) (by decide)
  obtain ⟨s, ran, runs⟩ := Loop.exists_ok_of_any runs
  refine ⟨r, s, constructed, ran, (threadCount_terminates_iff constructed ran).2 ?_⟩
  rintro forest isForest group ⟨-, cycle⟩
  obtain ⟨o, edge, -⟩ := TransGen.head'_iff.1 cycle
  rw [HandsOver, of_decide_eq_true (isForest.of_search runs)] at edge
  simp at edge

end CallbackRegistry

end PreemptiveExecutor
