/-
# Registry.Grouping — which callbacks share a threadgroup

A Reentrant callback shares the threadgroup that the traversal carries on to it.
That is the threadgroup of the callback the traversal last started without one, past
all MutuallyExclusive callbacks on the way, which enter their own.

It also starts without a threadgroup in MutuallyExclusive callbacks, and then carries
the threadgroup of their group on to Reentrant ones (`mutexGroupsApart_iff`).  And a
straight segment of the graph stays together until a callback of other stored indegree
than 1 (`segment_shared_iff`).
-/
import PreemptiveExecutor.Registry.Records
import PreemptiveExecutor.Registry.RepeatedChain
import PreemptiveExecutor.Registry.HashOrder

namespace PreemptiveExecutor

open Theory
open Relation (ReflTransGen TransGen)

set_option autoImplicit false

namespace CallbackRegistry

/-! ## Threadgroups of mutex groups -/

/-- The callback is exported with the threadgroup. -/
def ExportedTo (timing : TimingExport) (info : CallbackInfo) (threadgroupId : Nat) : Prop :=
  timing.callbackHandleToThreadgroupId.lookup info.entity.rawPointer = some threadgroupId

/-- An exported mutex threadgroup was created for a callback group, and has the
MutuallyExclusive callbacks of that group only. -/
def MutexGroupsApart (r : CallbackRegistry) (s : TraversalState) (timing : TimingExport) : Prop :=
  ∀ id attributes, timing.threadgroupAttributes.lookup id = some attributes → attributes.isMutexGroup = true →
    ∃ group, s.mutexThreadgroupMap.lookup group = some id ∧ ∀ name info, r.callbackMap.lookup name = some info →
      ExportedTo timing info id → info.isMutex = true ∧ info.callbackGroup.ptr = group

/-- Where the traversal goes on in the threadgroup of a mutex group, it goes on into
MutuallyExclusive callbacks only. -/
def KeepsMutexGroups (r : CallbackRegistry) (forest : Forest) : Prop :=
  ∀ call ∈ forest, ∀ before ∈ call.caller, r.adjacencyList.continues before = true →
    (r.carries forest before).isMutex = true → (r.owner call.callbackName).isMutex = true

instance (r : CallbackRegistry) (forest : Forest) : Decidable (r.KeepsMutexGroups forest) :=
  inferInstanceAs (Decidable (∀ call ∈ forest, ∀ before ∈ call.caller,
    r.adjacencyList.continues before = true →
      (r.carries forest before).isMutex = true → (r.owner call.callbackName).isMutex = true))

variable {preRegistered : PreRegisteredNames} {weakGroupsToNodes : WeakCallbackGroupsToNodesMap}
  {userChains : List UserChain} {r r' counted : CallbackRegistry} {order : IterationOrder} {stack : Nat}
  {timing : TimingExport} {forest : Forest} {s : TraversalState}

theorem owner_eq_mutexGroup {info : CallbackInfo} {name : String} (mutex : info.isMutex = true) :
    info.owner name = .mutexGroup info.callbackGroup.ptr := by
  rw [CallbackInfo.owner, if_pos mutex]

/-- A callback is exported with the threadgroup of the owner it joins. -/
theorem Allocated.exportedTo_iff (allocated : Allocated order stack r timing forest s counted) (sound : r.Sound)
    {name : String} {info : CallbackInfo} (found : r.callbackMap.lookup name = some info) (id : Nat) :
    ExportedTo timing info id ↔ s.idOf ((r.arrange order).joins forest name) = id := by
  rw [ExportedTo, allocated.ownerAllocation.handles]
  constructor
  · rintro ⟨name', info', found', samePtr, isId⟩
    -- callbacks are told apart by their pointers
    rwa [sound.handle name info name' info' found found' samePtr.symm]
  · exact fun isId => ⟨name, info, found, rfl, isId⟩

/-- **Only mutex groups join the owners of mutex groups exactly if** none is left by
going on into a Reentrant callback. -/
theorem joins_mutexGroup_iff (called : r.adjacencyList.Called forest) :
    (∀ name ∈ forest.names, (r.joins forest name).isMutex = true → (r.owner name).isMutex = true) ↔
      r.KeepsMutexGroups forest := by
  constructor
  · intro apart call member before caller continuing mutex
    obtain ⟨-, same⟩ := carries_of_inherited called call member caller continuing
    cases kind : (r.owner call.callbackName).isMutex with
    | true => rfl
    | false =>
        rw [← kind]
        refine apart call.callbackName (List.mem_map_of_mem member) ?_
        rw [joins_reentrant kind, same, mutex]
  · intro keeps name visited mutex
    obtain ⟨call, member, rfl⟩ := List.mem_map.1 visited
    cases kind : (r.owner call.callbackName).isMutex with
    | true => rfl
    | false =>
        rw [joins_reentrant kind] at mutex
        cases caller : call.caller with
        | none =>
            rw [carries_of_entered called call member (by rw [caller]; rfl), kind] at mutex
            cases mutex
        | some before =>
            cases continuing : r.adjacencyList.continues before with
            | true =>
                obtain ⟨-, same⟩ := carries_of_inherited called call member caller continuing
                rw [same] at mutex
                exact kind.symm.trans (keeps call member before caller continuing mutex)
            | false =>
                have entered : r.entered call.caller = true := by
                  rw [entered_of_caller caller, continuing]
                  rfl
                rw [carries_of_entered called call member entered, kind] at mutex
                cases mutex

/-- **Mutex threadgroups hold their own callback group only, exactly when the traversal
keeps to them.** -/
theorem mutexGroupsApart_iff (constructed : construct preRegistered weakGroupsToNodes userChains = .ok r)
    (returned : r.callbackThreadgroupAllocation order stack = .ok (timing, r'))
    (traversed : traverseRoots stack (r.arrange order) = .ok s) :
    MutexGroupsApart r s timing ↔ ∀ forest, (r.arrange order).adjacencyList.DepthFirstForest forest →
      (r.arrange order).KeepsMutexGroups forest := by
  obtain ⟨forest, counted, allocated⟩ :=
    exists_allocated_of_traversed (construct_fresh constructed order) returned traversed
  have names := allocated.refines.names
  have ownerAllocation := allocated.ownerAllocation
  rw [allocated.isForest.forall_iff, ← joins_mutexGroup_iff allocated.isForest.called]
  have exportedTo {name : String} {info : CallbackInfo} :=
    @Allocated.exportedTo_iff _ _ _ _ _ _ _ allocated (construct_sound constructed) name info
  constructor
  · intro apart name visited mutex
    obtain ⟨info, found⟩ := UnorderedMap.mem_iff_lookup.1 (ownerAllocation.registered name visited)
    obtain ⟨attributes, atOwner, isMutexGroup, -⟩ :=
      ownerAllocation.attributes _ (allocated.refines.grown.joined visited)
    obtain ⟨group, -, members⟩ := apart _ attributes atOwner (isMutexGroup.trans mutex)
    have kind : ((r.arrange order).owner name).isMutex = info.isMutex := owner_isMutex_of_lookup found
    rw [kind]
    exact (members name info found ((exportedTo found _).2 rfl)).1
  · intro apart id attributes atId isMutexGroup
    have exported : id ∈ timing.threadgroupAttributes := UnorderedMap.mem_iff_lookup.2 ⟨attributes, atId⟩
    obtain ⟨o, opened, rfl⟩ := (allocated.mem_iff_owner id).1 ((allocated.mem_exported id).1 exported)
    obtain ⟨attributes', atOwner, isMutex, -⟩ := ownerAllocation.attributes o opened
    obtain rfl : attributes = attributes' := Option.some.inj (atId.symm.trans atOwner)
    cases o with
    | segment head => rw [isMutexGroup] at isMutex; cases isMutex
    | mutexGroup group =>
        obtain ⟨id, known⟩ := (names.mutexes group).2 opened
        have isId : s.idOf (.mutexGroup group) = id := by rw [TraversalState.idOf, known]; rfl
        refine ⟨group, isId ▸ known, fun name info found toGroup => ?_⟩
        have visited := ownerAllocation.visited name (UnorderedMap.mem_iff_lookup.2 ⟨info, found⟩)
        have joined := names.injective _ _ (allocated.refines.grown.joined visited) opened
          ((exportedTo found _).1 toGroup)
        have mutex := apart name visited (by rw [joined]; rfl)
        have own : (r.arrange order).owner name = info.owner name := owner_of_lookup found
        have isMutex : info.isMutex = true := (owner_isMutex_of_lookup found).symm.trans mutex
        rw [joins_mutex mutex, own, owner_eq_mutexGroup isMutex] at joined
        exact ⟨isMutex, Owner.mutexGroup.inj joined⟩

/-! ### Where a chain comes to the mutex group -/

def planningNames : PreRegisteredNames := subscriptionNames ["sense", "lock", "plan"]

/-- `lock` is in a mutex group. -/
def planningGroups : WeakCallbackGroupsToNodesMap :=
  [⟨some (subscriptionGroup 1 .reentrant [10, 12]), some 100⟩,
    ⟨some (subscriptionGroup 2 .mutuallyExclusive [11]), some 100⟩]

/-- **A chain that starts in a mutex group takes its Reentrant callbacks along** into
the threadgroup of that group. -/
theorem mutexGroupsApart_inherited :
    ∃ r s timing r', construct planningNames planningGroups (lockingChain ["lock", "plan", "sense"]) = .ok r ∧
      r.callbackThreadgroupAllocation .stored 8 = .ok (timing, r') ∧
      traverseRoots 8 (r.arrange .stored) = .ok s ∧ ¬ MutexGroupsApart r s timing := by
  obtain ⟨r, constructed, runs⟩ := Loop.exists_ok_of_any
    (x := construct planningNames planningGroups (lockingChain ["lock", "plan", "sense"]))
    (p := fun r => (r.callbackThreadgroupAllocation .stored 8).toOption.any fun returned =>
      (traverseRoots 8 (r.arrange .stored)).toOption.any fun _ =>
        (returned.1.threadgroupAttributes.lookup 1).map (·.isMutexGroup) = some true ∧
          returned.1.callbackHandleToThreadgroupId.lookup 12 = some 1 ∧
          (r.callbackMap.lookup "plan").map (fun info => (info.entity.rawPointer, info.isMutex)) =
            some (12, false)) (by decide)
  obtain ⟨⟨timing, r'⟩, returned, runs⟩ := Loop.exists_ok_of_any runs
  obtain ⟨s, traversed, runs⟩ := Loop.exists_ok_of_any runs
  obtain ⟨isGroup, exported, isPlan⟩ := of_decide_eq_true runs
  refine ⟨r, s, timing, r', constructed, returned, traversed, fun apart => ?_⟩
  obtain ⟨attributes, atGroup, isMutexGroup⟩ := Option.map_eq_some_iff.1 isGroup
  obtain ⟨info, found, same⟩ := Option.map_eq_some_iff.1 isPlan
  obtain ⟨isHandle, reentrant⟩ := Prod.mk.inj same
  obtain ⟨group, -, members⟩ := apart 1 attributes atGroup isMutexGroup
  have toGroup : ExportedTo timing info 1 := by
    rw [ExportedTo, isHandle]
    exact exported
  rw [(members "plan" info found toGroup).1] at reentrant
  cases reentrant

/-- A chain that comes to the mutex group later keeps its threadgroup behind it. -/
theorem mutexGroupsApart_later :
    ∃ r s timing r', construct planningNames planningGroups (lockingChain ["sense", "lock", "plan"]) = .ok r ∧
      r.callbackThreadgroupAllocation .stored 8 = .ok (timing, r') ∧
      traverseRoots 8 (r.arrange .stored) = .ok s ∧ MutexGroupsApart r s timing := by
  obtain ⟨r, constructed, runs⟩ := Loop.exists_ok_of_any
    (x := construct planningNames planningGroups (lockingChain ["sense", "lock", "plan"]))
    (p := fun r => (r.callbackThreadgroupAllocation .stored 8).toOption.any fun _ =>
      (traverseRoots 8 (r.arrange .stored)).toOption.any fun _ =>
        ((r.arrange .stored).adjacencyList.searchForest 8).toOption.any fun forest =>
            (r.arrange .stored).KeepsMutexGroups forest) (by decide)
  obtain ⟨⟨timing, r'⟩, returned, runs⟩ := Loop.exists_ok_of_any runs
  obtain ⟨s, traversed, runs⟩ := Loop.exists_ok_of_any runs
  exact ⟨r, s, timing, r', constructed, returned, traversed,
    (mutexGroupsApart_iff constructed returned traversed).2
      fun forest isForest => of_decide_eq_true (isForest.of_search runs)⟩

/-! ## Straight segments -/

/-- The callback has one successor, of stored indegree 1. -/
def PassesOn (r : CallbackRegistry) (before next : String) : Prop :=
  r.adjacencyList.onlySuccessor before = some next ∧ r.adjacencyList.indegree next = 1

/-- Where no indegree wraps, a stored indegree of 1 means one predecessor. -/
theorem onePredecessor_of_places (constructed : construct preRegistered weakGroupsToNodes userChains = .ok r)
    (long : ∀ chain ∈ userChains, 2 ≤ chain.callbacks.length) (few : ∀ name, places userChains name < 2 ^ 8) :
    r.adjacencyList.OnePredecessor := by
  rintro a b next ⟨edge, single⟩ edge'
  have counted := construct_indegree constructed long next
  rw [single, Nat.mod_eq_of_lt (few next)] at counted
  exact chainStep_unique counted.symm (construct_outgoing constructed edge) (construct_outgoing constructed edge')

theorem onePredecessor_arranged (one : r.adjacencyList.OnePredecessor) (order : IterationOrder) :
    (r.arrange order).adjacencyList.OnePredecessor := by
  rintro a b next ⟨edge, single⟩ edge'
  have stored := outgoing_arranged order r.adjacencyList
  rw [show (r.arrange order).adjacencyList.indegree next = r.adjacencyList.indegree next from
    indegree_arranged order _ next] at single
  exact one a b next ⟨(stored a).mem_iff.2 edge, single⟩ ((stored b).mem_iff.2 edge')

theorem step_of_onlySuccessor (constructed : construct preRegistered weakGroupsToNodes userChains = .ok r)
    {before next : String} (only : r.adjacencyList.onlySuccessor before = some next) :
    ChainStep userChains before next := by
  apply construct_outgoing constructed
  rw [AdjacencyList.onlySuccessor_eq_some.1 only]
  exact List.mem_singleton_self next

theorem outgoing_of_onlySuccessor {before next : String}
    (only : r.adjacencyList.onlySuccessor before = some next) (order : IterationOrder) :
    (r.arrange order).adjacencyList.outgoing before = [next] := by
  have same := outgoing_arranged order r.adjacencyList before
  rw [AdjacencyList.onlySuccessor_eq_some.1 only] at same
  exact List.perm_singleton.1 same.symm

/-- The only successor is the first one in every order. -/
theorem PassesOn.continuesInto {before next : String} (passes : r.PassesOn before next) (order : IterationOrder) :
    (r.arrange order).adjacencyList.ContinuesInto before next := by
  constructor
  · rw [outgoing_of_onlySuccessor passes.1 order]
    rfl
  · exact (indegree_arranged order _ next).trans passes.2

/-- **A threadgroup is carried unchanged along a straight segment.** -/
theorem carries_passedOn (called : (r.arrange order).adjacencyList.Called forest)
    (one : (r.arrange order).adjacencyList.OnePredecessor) {a b : String}
    (path : ReflTransGen r.PassesOn a b) (visited : b ∈ forest.names) :
    a ∈ forest.names ∧ (r.arrange order).carries forest b = (r.arrange order).carries forest a := by
  induction path with
  | refl => exact ⟨visited, rfl⟩
  | tail _ passes ih =>
      obtain ⟨known, same⟩ := carries_continued called one (passes.continuesInto order) visited
      exact ⟨(ih known).1, same.trans (ih known).2⟩

/-- **A straight segment stays together until a callback of other indegree than 1**,
whether the callbacks in between are MutuallyExclusive or not. -/
theorem segment_shared_iff (constructed : construct preRegistered weakGroupsToNodes userChains = .ok r)
    (long : ∀ chain ∈ userChains, 2 ≤ chain.callbacks.length) (acyclic : Acyclic (ChainStep userChains))
    (few : ∀ name, places userChains name < 2 ^ 8)
    (returned : r.callbackThreadgroupAllocation order stack = .ok (timing, r'))
    {a last b : String} (path : ReflTransGen r.PassesOn a last)
    (only : r.adjacencyList.onlySuccessor last = some b) {infoA infoB : CallbackInfo}
    (isA : r.callbackMap.lookup a = some infoA) (isB : r.callbackMap.lookup b = some infoB)
    (reentrantA : infoA.isMutex = false) (reentrantB : infoB.isMutex = false) :
    timing.Shares infoA.entity.rawPointer infoB.entity.rawPointer ↔ r.adjacencyList.indegree b = 1 := by
  obtain ⟨forest, threads, idOf, isForest, grown, -, -, allocation⟩ :=
    allocation_by_owner (construct_fresh constructed order) returned
  have called := isForest.called
  have one := onePredecessor_arranged (onePredecessor_of_places constructed long few) order
  have visited := allocation.visited b (UnorderedMap.mem_iff_lookup.2 ⟨_, isB⟩)
  have visitedA := allocation.visited a (UnorderedMap.mem_iff_lookup.2 ⟨_, isA⟩)
  have kindA : ((r.arrange order).owner a).isMutex = false := (owner_isMutex_of_lookup isA).trans reentrantA
  have kindB : ((r.arrange order).owner b).isMutex = false := (owner_isMutex_of_lookup isB).trans reentrantB
  rw [allocation.shares_iff grown isA isB, joins_reentrant kindA, joins_reentrant kindB]
  constructor
  · intro same
    by_contra restarted
    have afresh : ∀ before, ¬ (r.arrange order).adjacencyList.ContinuesInto before b := fun before goesOn =>
      restarted ((indegree_arranged order _ b).symm.trans goesOn.2)
    have own := carries_afresh called visited afresh
    -- the segment of `b` would come back to `a`
    have back := path_of_carries called one kindB visitedA (same.trans own)
    have back : ReflTransGen (ChainStep userChains) b a := back.lift id fun _ _ edge =>
      construct_outgoing constructed ((outgoing_arranged order _ _).mem_iff.2 edge.1)
    have there : ReflTransGen (ChainStep userChains) a last := path.lift id fun _ _ passes =>
      step_of_onlySuccessor constructed passes.1
    exact acyclic b (TransGen.tail' (back.trans there) (step_of_onlySuccessor constructed only))
  · exact fun single => (carries_passedOn called one (path.tail ⟨only, single⟩) visited).2.symm

theorem lockingChain_acyclic : Acyclic (ChainStep (lockingChain ["sense", "lock", "plan"])) := by
  refine .of_rank (fun name => if name = "sense" then 0 else if name = "lock" then 1 else 2) fun a b step => ?_
  have steps_ : (a = "sense" ∧ b = "lock") ∨ (a = "lock" ∧ b = "plan") := by
    simpa [ChainStep, lockingChain, steps] using step
  rcases steps_ with ⟨rfl, rfl⟩ | ⟨rfl, rfl⟩ <;> decide

/-- `plan` shares the threadgroup of `sense`, past the mutex group between them. -/
theorem segment_shared_locking :
    ∃ r timing r' sense plan, construct planningNames planningGroups (lockingChain ["sense", "lock", "plan"]) = .ok r ∧
      r.callbackThreadgroupAllocation .stored 8 = .ok (timing, r') ∧ r.callbackMap.lookup "sense" = some sense ∧
      r.callbackMap.lookup "plan" = some plan ∧ timing.Shares sense.entity.rawPointer plan.entity.rawPointer := by
  obtain ⟨r, constructed, runs⟩ := Loop.exists_ok_of_any
    (x := construct planningNames planningGroups (lockingChain ["sense", "lock", "plan"]))
    (p := fun r => (r.callbackThreadgroupAllocation .stored 8).toOption.any fun _ =>
      r.adjacencyList.onlySuccessor "sense" = some "lock" ∧ r.adjacencyList.indegree "lock" = 1 ∧
        r.adjacencyList.onlySuccessor "lock" = some "plan" ∧ r.adjacencyList.indegree "plan" = 1 ∧
        (r.callbackMap.lookup "sense").map CallbackInfo.isMutex = some false ∧
        (r.callbackMap.lookup "plan").map CallbackInfo.isMutex = some false) (by decide)
  obtain ⟨⟨timing, r'⟩, returned, runs⟩ := Loop.exists_ok_of_any runs
  obtain ⟨toLock, atLock, toPlan, atPlan, isSense, isPlan⟩ := of_decide_eq_true runs
  obtain ⟨sense, foundSense, reentrantSense⟩ := Option.map_eq_some_iff.1 isSense
  obtain ⟨plan, foundPlan, reentrantPlan⟩ := Option.map_eq_some_iff.1 isPlan
  refine ⟨r, timing, r', sense, plan, constructed, returned, foundSense, foundPlan, ?_⟩
  refine (segment_shared_iff constructed (by decide) lockingChain_acyclic (fun name => ?_) returned
    (.single ⟨toLock, atLock⟩) toPlan foundSense foundPlan reentrantSense reentrantPlan).2 atPlan
  exact lt_of_le_of_lt List.count_le_length (by decide)

end CallbackRegistry

end PreemptiveExecutor
