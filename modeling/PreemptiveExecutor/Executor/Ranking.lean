/-
# Executor.Ranking — the numbers the priority loop hands out

Every threadgroup is recorded in the deadline map at least once, so on a fresh
registry the loop numbers all of them, 1, 2, 3, … in the order of their smallest
deadlines (`priorities_rank`), as long as there are not more than the 16-bit counter
can count.  How many there are is the number of owners in the depth-first forest.
Nothing keeps that below `MAX_FIFO_PRIO`, so the priorities are ones `set_fifo_prio`
accepts and the boost exceeds exactly when the forest has few enough owners
(`priorities_belowBoost_iff`).
-/
import Mathlib.Data.Set.Function
import Mathlib.Order.Interval.Set.Defs
import PreemptiveExecutor.Registry.Records
import PreemptiveExecutor.Registry.Registration
import PreemptiveExecutor.Executor.Urgency

namespace PreemptiveExecutor

open Theory
open Theory.Numbering (number)
open Theory.OrderedMultimap (Least Recorded)

set_option autoImplicit false

/-- The exported priority of a threadgroup. -/
def TimingExport.priority (timing : TimingExport) (id : Nat) : Nat :=
  ((timing.threadgroupAttributes.lookup id).map ThreadGroupAttributes.priority).getD 0

namespace CallbackRegistry

variable {preRegistered : PreRegisteredNames} {weakGroupsToNodes : WeakCallbackGroupsToNodesMap}
  {userChains : List UserChain} {r r' counted : CallbackRegistry} {order : IterationOrder} {stack : Nat}
  {timing : TimingExport} {forest : Forest} {s : TraversalState}

namespace Allocated

variable (allocated : Allocated order stack r timing forest s counted)

include allocated

/-- **Every threadgroup is recorded**, and nothing else is. -/
theorem mem_values (id : Nat) :
    id ∈ OrderedMultimap.values s.deadlineToThreadgroupIdMap ↔ id ∈ timing.threadgroupAttributes := by
  rw [OrderedMultimap.mem_values, allocated.mem_exported, allocated.mem_iff_owner]
  constructor
  · rintro ⟨deadline, recorded⟩
    obtain ⟨call, member, opens, isId, -⟩ := (allocated.records.deadlines deadline id).1 recorded
    exact ⟨_, ⟨call, member, opens, rfl⟩, isId⟩
  · rintro ⟨o, ⟨call, member, opens, rfl⟩, isId⟩
    exact ⟨_, (allocated.records.deadlines _ id).2 ⟨call, member, opens, isId, rfl⟩⟩

/-- As many numbers are handed out as there are threadgroups. -/
theorem values_length :
    (OrderedMultimap.values s.deadlineToThreadgroupIdMap).eraseDups.length =
      timing.threadgroupAttributes.keys.length := by
  refine List.Perm.length_eq ((List.perm_ext_iff_of_nodup (Numbering.eraseDups_nodup _)
    timing.threadgroupAttributes.nodupKeys).2 fun id => ?_)
  rw [List.mem_eraseDups, allocated.mem_values]
  exact AList.mem_keys

theorem priority_eq {id : Nat} (exported : id ∈ timing.threadgroupAttributes) :
    timing.priority id =
      (UnorderedMap.subscript (assignFixedPriorities s).threadgroupCallbackMap id).fixedPriority.val := by
  obtain ⟨attributes, found⟩ := UnorderedMap.mem_iff_lookup.1 exported
  rw [TimingExport.priority, found]
  exact (allocated.attributes found).1

end Allocated

theorem construct_ready (constructed : construct preRegistered weakGroupsToNodes userChains = .ok r)
    (traversed : traverseRoots stack (r.arrange order) = .ok s) : s.ReadyForPriorities := by
  have noRecords := (construct_fresh constructed order).noRecords
  have unprioritized : (r.arrange order).Unprioritized := fun id => by
    rw [noRecords]
    rfl
  exact (unprioritized.traverseRoots stack).1 s traversed

/-- The exported priority is the number of the threadgroup in the deadline map. -/
theorem Allocated.priority_number (allocated : Allocated order stack r timing forest s counted)
    (ready : s.ReadyForPriorities) (few : timing.threadgroupAttributes.keys.length ≤ 65535) {id : Nat}
    (exported : id ∈ timing.threadgroupAttributes) :
    timing.priority id = number (OrderedMultimap.values s.deadlineToThreadgroupIdMap) id := by
  have numbers := foldl_assignFixedPriority_number (m := s.threadgroupCallbackMap) ready.unprioritized
    (OrderedMultimap.values s.deadlineToThreadgroupIdMap)
    (by rw [allocated.values_length]; omega)
  rw [allocated.priority_eq exported]
  exact (numbers.1 id).trans (if_pos ((allocated.mem_values id).2 exported))

/-- **The priorities are a ranking** of the threadgroups by their smallest deadlines. -/
theorem priorities_rank (constructed : construct preRegistered weakGroupsToNodes userChains = .ok r)
    (returned : r.callbackThreadgroupAllocation order stack = .ok (timing, r'))
    (traversed : traverseRoots stack (r.arrange order) = .ok s)
    (few : timing.threadgroupAttributes.keys.length ≤ 65535) :
    Set.BijOn timing.priority {id | id ∈ timing.threadgroupAttributes}
      (Set.Icc 1 timing.threadgroupAttributes.keys.length) ∧
    (∀ id ∈ timing.threadgroupAttributes, ∃ deadline, Least s.deadlineToThreadgroupIdMap id deadline) ∧
    ∀ id id' deadline deadline', Least s.deadlineToThreadgroupIdMap id deadline →
      Least s.deadlineToThreadgroupIdMap id' deadline' → deadline < deadline' →
      timing.priority id < timing.priority id' := by
  obtain ⟨forest, counted, allocated⟩ :=
    exists_allocated_of_traversed (construct_fresh constructed order) returned traversed
  have number_ {id : Nat} (exported : id ∈ timing.threadgroupAttributes) :=
    allocated.priority_number (construct_ready constructed traversed) few exported
  have length := allocated.values_length
  refine ⟨⟨fun id exported => ?_, fun id exported id' exported' same => ?_, fun n range => ?_⟩,
    fun id exported => ?_, fun id id' deadline deadline' least least' less => ?_⟩
  · rw [number_ exported, Set.mem_Icc, ← length]
    exact ⟨Numbering.number_pos _ _, Numbering.number_le ((allocated.mem_values id).2 exported)⟩
  · rw [number_ exported, number_ exported'] at same
    exact Numbering.number_inj ((allocated.mem_values id).2 exported) same
  · rw [Set.mem_Icc, ← length] at range
    obtain ⟨id, member, isNumber⟩ := Numbering.exists_number range.1 range.2
    have exported := (allocated.mem_values id).1 member
    exact ⟨id, exported, (number_ exported).trans isNumber⟩
  · exact OrderedMultimap.exists_least (OrderedMultimap.mem_values.1 ((allocated.mem_values id).2 exported))
  · obtain ⟨l, l', split, earlier, later⟩ := allocated.records.ordered.exists_split least least' less
    rw [number_ ((allocated.mem_values id).1 (OrderedMultimap.mem_values.2 ⟨deadline, least.1⟩)),
      number_ ((allocated.mem_values id').1 (OrderedMultimap.mem_values.2 ⟨deadline', least'.1⟩)), split]
    exact Numbering.number_lt earlier later

/-- The number of the braking chain is smaller than that of the logging chain. -/
theorem priorities_rank_driving :
    ∃ r s timing r', construct drivingNames [⟨some drivingGroup, some 100⟩] (drivingChains 500) = .ok r ∧
      traverseRoots 8 (r.arrange .stored) = .ok s ∧
      r.callbackThreadgroupAllocation .stored 8 = .ok (timing, r') ∧
      Set.BijOn timing.priority {id | id ∈ timing.threadgroupAttributes} (Set.Icc 1 2) ∧
      timing.priority 2 < timing.priority 1 := by
  obtain ⟨r, constructed, runs⟩ := Loop.exists_ok_of_any
    (x := construct drivingNames [⟨some drivingGroup, some 100⟩] (drivingChains 500))
    (p := fun r => (traverseRoots 8 (r.arrange .stored)).toOption.any fun s =>
      (r.callbackThreadgroupAllocation .stored 8).toOption.any fun result =>
        s.deadlineToThreadgroupIdMap = [(10, [2]), (500, [1])] ∧
          result.1.threadgroupAttributes.keys.length = 2) (by decide)
  obtain ⟨s, traversed, runs⟩ := Loop.exists_ok_of_any runs
  obtain ⟨⟨timing, r'⟩, returned, runs⟩ := Loop.exists_ok_of_any runs
  obtain ⟨deadlines, two⟩ := of_decide_eq_true runs
  obtain ⟨ranking, -, monotonic⟩ := priorities_rank constructed returned traversed (by rw [two]; decide)
  have braking : Least s.deadlineToThreadgroupIdMap 2 10 := by
    rw [deadlines]
    simp [Least, OrderedMultimap.recorded_cons]
  have logging : Least s.deadlineToThreadgroupIdMap 1 500 := by
    rw [deadlines]
    simp [Least, OrderedMultimap.recorded_cons]
  exact ⟨r, s, timing, r', constructed, traversed, returned, two ▸ ranking,
    monotonic 2 1 10 500 braking logging (by decide)⟩

/-! ## Room for the boost -/

/-- A priority that `set_fifo_prio` takes and the boost exceeds. -/
structure BelowBoost (priority : Nat) : Prop where
  range : 1 ≤ priority ∧ priority ≤ maxFifoPrio - 1
  accepted : setFifoPrio priority = some priority
  boosted : MoreUrgent (setFifoPrio maxFifoPrio) (setFifoPrio priority)

theorem belowBoost_iff (priority : Nat) : BelowBoost priority ↔ 1 ≤ priority ∧ priority ≤ maxFifoPrio - 1 := by
  refine ⟨BelowBoost.range, fun range => ?_⟩
  unfold maxFifoPrio at range
  have accepted : setFifoPrio priority = some priority := by
    unfold setFifoPrio maxFifoPrio
    rw [if_pos]
    omega
  refine ⟨range, accepted, maxFifoPrio, priority, rfl, accepted, ?_⟩
  unfold maxFifoPrio
  omega

/-- The owners that have threadgroups. -/
def openedOwners (r : CallbackRegistry) (forest : Forest) : List Owner :=
  ((forest.filter r.opens).map fun call => r.owner call.callbackName).eraseDups

theorem mem_openedOwners {o : Owner} : o ∈ r.openedOwners forest ↔ r.Opened forest o := by
  unfold openedOwners Opened
  simp only [List.mem_eraseDups, List.mem_map, List.mem_filter, and_assoc]

/-- Every owner has one threadgroup. -/
theorem Allocated.openedOwners_length (allocated : Allocated order stack r timing forest s counted) :
    ((r.arrange order).openedOwners forest).length = timing.threadgroupAttributes.keys.length := by
  rw [← List.length_map (f := s.idOf)]
  refine List.Perm.length_eq ((List.perm_ext_iff_of_nodup ?_ timing.threadgroupAttributes.nodupKeys).2
    fun id => ?_)
  · refine List.Nodup.map_on (fun o opened o' opened' same => ?_) (Numbering.eraseDups_nodup _)
    exact allocated.refines.names.injective o o' (mem_openedOwners.1 opened) (mem_openedOwners.1 opened') same
  · change _ ↔ id ∈ timing.threadgroupAttributes.keys
    rw [← AList.mem_keys, allocated.mem_exported, allocated.mem_iff_owner, List.mem_map]
    simp only [mem_openedOwners]

/-- The loop hands out every number that the counter and the threadgroups reach. -/
theorem Allocated.exists_priority (allocated : Allocated order stack r timing forest s counted)
    (ready : s.ReadyForPriorities) {n : Nat} (pos : 0 < n) (fits : n < 2 ^ 16)
    (many : n ≤ timing.threadgroupAttributes.keys.length) :
    ∃ id ∈ timing.threadgroupAttributes, timing.priority id = n := by
  rw [← allocated.values_length] at many
  obtain ⟨l, l', split, exactly⟩ := Numbering.exists_split _ many
  obtain ⟨id, member, isNumber⟩ := Numbering.exists_number pos (le_of_eq exactly.symm)
  have exported : id ∈ timing.threadgroupAttributes := by
    rw [← allocated.mem_values, split]
    exact List.mem_append.2 (Or.inl member)
  -- the number given after the first part of the loop is kept in the second
  have numbers := (foldl_assignFixedPriority_number (m := s.threadgroupCallbackMap) ready.unprioritized l
    (by rw [exactly]; exact fits)).1 id
  rw [if_pos member, isNumber] at numbers
  refine ⟨id, exported, ?_⟩
  rw [allocated.priority_eq exported, assignFixedPriorities, split, List.foldl_append,
    foldl_assignFixedPriority_keeps l' _ fun zero => ?_, numbers]
  rw [zero] at numbers
  exact Nat.ne_of_lt pos numbers

/-- **The priorities leave room for the boost exactly when the depth-first forest has
at most 98 owners.** -/
theorem priorities_belowBoost_iff (constructed : construct preRegistered weakGroupsToNodes userChains = .ok r)
    (returned : r.callbackThreadgroupAllocation order stack = .ok (timing, r')) :
    (∀ id ∈ timing.threadgroupAttributes, BelowBoost (timing.priority id)) ↔
      ∀ forest, (r.arrange order).adjacencyList.DepthFirstForest forest →
        ((r.arrange order).openedOwners forest).length ≤ maxFifoPrio - 1 := by
  obtain ⟨forest, s, counted, allocated⟩ := exists_allocated (construct_fresh constructed order) returned
  have ready := construct_ready constructed allocated.traversed
  rw [allocated.isForest.forall_iff, allocated.openedOwners_length]
  constructor
  · intro below
    by_contra many
    obtain ⟨id, exported, isMax⟩ := allocated.exists_priority ready (n := maxFifoPrio) (by decide) (by decide)
      (by unfold maxFifoPrio at many ⊢; omega)
    have range := (below id exported).range
    rw [isMax] at range
    exact absurd range.2 (by decide)
  · intro few id exported
    unfold maxFifoPrio at few
    have isNumber := allocated.priority_number ready (by omega) exported
    have le := Numbering.number_le ((allocated.mem_values id).2 exported)
    rw [allocated.values_length, ← isNumber] at le
    have pos := Numbering.number_pos (OrderedMultimap.values s.deadlineToThreadgroupIdMap) id
    rw [← isNumber] at pos
    rw [belowBoost_iff]
    unfold maxFifoPrio
    omega

/-- Two chains leave room for the boost. -/
theorem priorities_belowBoost_driving :
    ∃ r timing r', construct drivingNames [⟨some drivingGroup, some 100⟩] (drivingChains 500) = .ok r ∧
      r.callbackThreadgroupAllocation .stored 8 = .ok (timing, r') ∧
      ∀ id ∈ timing.threadgroupAttributes, BelowBoost (timing.priority id) := by
  obtain ⟨r, constructed, runs⟩ := Loop.exists_ok_of_any
    (x := construct drivingNames [⟨some drivingGroup, some 100⟩] (drivingChains 500))
    (p := fun r => (r.callbackThreadgroupAllocation .stored 8).toOption.any fun _ =>
      ((r.arrange .stored).adjacencyList.searchForest 8).toOption.any fun forest =>
          ((r.arrange .stored).openedOwners forest).length = 2) (by decide)
  obtain ⟨⟨timing, r'⟩, returned, runs⟩ := Loop.exists_ok_of_any runs
  refine ⟨r, timing, r', constructed, returned, (priorities_belowBoost_iff constructed returned).2 ?_⟩
  intro forest isForest
  rw [of_decide_eq_true (isForest.of_search runs)]
  decide

/-! ### Traversals that only the root loop calls -/

/-- Where no callback calls another one nothing is handed over. -/
theorem noEdges_of_roots (refines : TraversalState.Refines r s forest [] [])
    (roots : ∀ call ∈ forest, call.caller = none) : s.threadgroupAdjacencyList.entries = [] := by
  rw [List.eq_nil_iff_forall_not_mem]
  rintro ⟨id, info⟩ member
  have present : id ∈ s.threadgroupAdjacencyList :=
    UnorderedMap.mem_iff_lookup.2 ⟨info, UnorderedMap.mem_entries_iff.1 member⟩
  have noHandover : ∀ o o', ¬ r.HandsOver forest o o' := by
    intro o o' edge
    obtain ⟨call, inForest, before, caller, -⟩ := handsOver_target edge
    rw [roots call inForest] at caller
    cases caller
  obtain ⟨id', linked | linked⟩ := refines.links.linked id present
  · obtain ⟨o, o', edge, -⟩ := (refines.links.outgoing id id').1 linked
    exact noHandover o o' edge
  · obtain ⟨o, o', edge, -⟩ := (refines.links.incoming id id').1 linked
    exact noHandover o' o edge

/-- Without edges the thread-count loop has nothing to do. -/
theorem countThreads_noEdges (noEdges : s.threadgroupAdjacencyList.entries = []) (stack : Nat) :
    countThreads stack (prioritized .stored s) = .ok (prioritized .stored s) := by
  rw [countThreads]
  change List.foldlM _ _ s.threadgroupAdjacencyList.entries = _
  rw [noEdges]
  rfl

/-! ### Chains of one callback each -/

def soloChain (name : String) : UserChain :=
  { chainName := name, callbacks := [name], deadline := 10, period := 10 }

/-- One Reentrant group with as many subscriptions as there are names. -/
def soloGroups (names : List String) : WeakCallbackGroupsToNodesMap :=
  [⟨some (subscriptionGroup 1 .reentrant ((List.range names.length).map (· + 10))), some 100⟩]

section Solo

variable {names : List String}

theorem lookup_subscriptionNames (ptr : Ptr) (name : String) :
    (subscriptionNames names).lookup ptr = some name ↔ ∃ i, names[i]? = some name ∧ ptr = i + 10 := by
  have entry : ∀ item : String × Nat, item ∈ names.zipIdx 10 ↔ ∃ i, names[i]? = some item.1 ∧ item.2 = i + 10 := by
    intro item
    rw [List.mem_zipIdx_iff_le_and_getElem?_sub]
    constructor
    · rintro ⟨le, at_⟩
      exact ⟨item.2 - 10, at_, by omega⟩
    · rintro ⟨i, at_, isIdx⟩
      exact ⟨by omega, by rw [isIdx]; simpa using at_⟩
  have agree : ∀ i ∈ names.zipIdx 10, ∀ j ∈ names.zipIdx 10, i.2 = j.2 → i.1 = j.1 := by
    intro i hi j hj same
    obtain ⟨m, at_, isIdx⟩ := (entry i).1 hi
    obtain ⟨n, at_', isIdx'⟩ := (entry j).1 hj
    obtain rfl : m = n := by omega
    rw [at_] at at_'
    exact Option.some.inj at_'
  rw [subscriptionNames, UnorderedMap.lookup_foldl_insert _ _ _ _ agree]
  simp only [entry, AList.lookup_empty]
  constructor
  · rintro (⟨item, ⟨i, at_, isIdx⟩, rfl, rfl⟩ | ⟨-, none_⟩)
    · exact ⟨i, at_, isIdx⟩
    · cases none_
  · rintro ⟨i, at_, rfl⟩
    exact Or.inl ⟨(name, i + 10), ⟨i, at_, rfl⟩, rfl, rfl⟩

/-- Every name has a Reentrant callback. -/
theorem solo_registered {userChains : List UserChain}
    (constructed : construct (subscriptionNames names) (soloGroups names) userChains = .ok r) (name : String) :
    (name ∈ r.callbackMap ↔ name ∈ names) ∧ (r.owner name).isMutex = false := by
  have scanned := (construct_scanned constructed).1
  refine ⟨⟨fun present => ?_, fun member => ?_⟩, ?_⟩
  · obtain ⟨info, found⟩ := UnorderedMap.mem_iff_lookup.1 present
    obtain ⟨i, at_, -⟩ := (lookup_subscriptionNames _ _).1 (scanned name info found).1
    exact List.mem_of_getElem? at_
  · obtain ⟨i, at_⟩ := List.mem_iff_getElem?.1 member
    have bound := (List.getElem?_eq_some_iff.1 at_).1
    have listed : FoundIn (soloGroups names) ⟨.subscription, i + 10⟩ := by
      refine ⟨_, _, List.mem_singleton_self _, rfl, ?_⟩
      simp [CallbackGroup.collectAllPtrs, subscriptionGroup, bound]
    exact construct_names constructed listed ((lookup_subscriptionNames _ _).2 ⟨i, at_, rfl⟩)
  · unfold owner
    cases found : r.callbackMap.lookup name with
    | none => rfl
    | some info =>
        obtain ⟨-, -, entry, listed, isGroup, -⟩ := scanned name info found
        obtain rfl := List.mem_singleton.1 listed
        change (info.owner name).isMutex = false
        rw [TraversalState.owner_isMutex, CallbackInfo.isMutex, ← Option.some.inj isGroup]
        rfl

/-- Every record of the callback graph is empty. -/
theorem solo_records
    (constructed : construct (subscriptionNames names) (soloGroups names) (names.map soloChain) = .ok r)
    {name : String} {info : CallbackAdjacencyInfo} (found : r.adjacencyList.lookup name = some info) :
    info = {} := by
  refine Loop.foldlM_ok (fun adjacencyList : AdjacencyList => ∀ name info,
      adjacencyList.lookup name = some info → info = {}) _ (fun before after chain member empty added => ?_)
    (fun _ _ found => by cases found) (construct_chains constructed) name info found
  obtain ⟨solo, -, rfl⟩ := List.mem_map.1 member
  cases added
  intro name info found
  rw [UnorderedMap.lookup_insert_eq] at found
  split at found
  · exact (Option.some.inj found).symm
  · exact empty name info found

theorem solo_roots
    (constructed : construct (subscriptionNames names) (soloGroups names) (names.map soloChain) = .ok r) :
    (∀ name ∈ names, name ∈ r.adjacencyList.roots) ∧ ∀ name, r.adjacencyList.followed name = [] := by
  refine ⟨fun name member => ?_, fun name => AdjacencyList.followed_nil ?_⟩
  · have named : Named (names.map soloChain) name :=
      ⟨soloChain name, List.mem_map_of_mem member, List.mem_singleton_self _⟩
    obtain ⟨info, found⟩ := UnorderedMap.mem_iff_lookup.1 ((construct_keys constructed name).2 named)
    exact AdjacencyList.mem_roots.2 ⟨info, found, by rw [solo_records constructed found]⟩
  · unfold AdjacencyList.outgoing UnorderedMap.subscript
    cases found : r.adjacencyList.lookup name with
    | none => rfl
    | some info =>
        rw [solo_records constructed found]
        rfl

/-- No callback calls another one. -/
theorem solo_calls
    (constructed : construct (subscriptionNames names) (soloGroups names) (names.map soloChain) = .ok r)
    (isForest : (r.arrange .stored).adjacencyList.DepthFirstForest forest) :
    ∀ call ∈ forest, call.caller = none := by
  intro call member
  cases caller : call.caller with
  | none => rfl
  | some before =>
      have follows : call.callbackName ∈ r.adjacencyList.followed before :=
        isForest.called.follows call member before caller
      rw [(solo_roots constructed).2 before] at follows
      cases follows

/-- Every callback has a threadgroup of its own. -/
theorem solo_threadgroups
    (constructed : construct (subscriptionNames names) (soloGroups names) (names.map soloChain) = .ok r)
    (nodup : names.Nodup) (allocated : Allocated .stored stack r timing forest s counted) :
    names.length ≤ timing.threadgroupAttributes.keys.length := by
  rw [← allocated.openedOwners_length, ← List.length_map (f := Owner.segment)]
  refine List.Subperm.length_le (List.subperm_of_subset
    (List.Nodup.map (fun _ _ same => Owner.segment.inj same) nodup) fun o member => ?_)
  obtain ⟨name, inNames, rfl⟩ := List.mem_map.1 member
  have visited := allocated.ownerAllocation.visited name ((solo_registered constructed name).1.2 inNames)
  obtain ⟨call, inForest, rfl⟩ := List.mem_map.1 visited
  refine mem_openedOwners.2 ⟨call, inForest, opens_of_entered ?_, ?_⟩
  · rw [solo_calls constructed allocated.isForest call inForest]
    rfl
  · exact segment_of_reentrant (solo_registered constructed _).2

/-- **Chains of one callback each are all allocated**, every one with a threadgroup
of its own. -/
theorem solo_allocates (nodup : names.Nodup) :
    ∃ r, construct (subscriptionNames names) (soloGroups names) (names.map soloChain) = .ok r ∧
      ∃ stack timing r', r.callbackThreadgroupAllocation .stored stack = .ok (timing, r') ∧
        names.length ≤ timing.threadgroupAttributes.keys.length := by
  have wellFormed : ∀ chain ∈ names.map soloChain, chain.callbacks ≠ [] := by
    intro chain member
    obtain ⟨name, -, rfl⟩ := List.mem_map.1 member
    exact List.cons_ne_nil _ _
  obtain ⟨r, constructed⟩ := construct_returns (subscriptionNames names) (soloGroups names) wellFormed
  have sound := construct_sound constructed
  -- the root loop visits the roots, which are all callbacks
  have registered : ∀ name, (r.arrange .stored).Visits name → name ∈ r.callbackMap := by
    intro name visited
    obtain ⟨chain, member, inChain⟩ := visits_named constructed .stored visited
    obtain ⟨solo, inNames, rfl⟩ := List.mem_map.1 member
    obtain rfl := List.mem_singleton.1 inChain
    exact (solo_registered constructed _).1.2 inNames
  obtain ⟨s, traversed⟩ := traverseRoots_returns (r := r.arrange .stored) sound registered (Nat.lt_succ_self _)
  obtain ⟨forest, isForest, refines⟩ := traverseRoots_refines (construct_fresh constructed .stored) traversed
  have assigned : ∀ name info, s.callbackMap.lookup name = some info → info.threadgroupId ≠ 0 := by
    intro name info found
    have present : name ∈ r.callbackMap :=
      (refines.names.same.mem_iff name).2 (UnorderedMap.mem_iff_lookup.2 ⟨info, found⟩)
    have isRoot := (solo_roots constructed).1 name ((solo_registered constructed name).1.1 present)
    obtain ⟨info', found', nonzero⟩ := traverseRoots_roots sound traversed name isRoot
    obtain rfl : info' = info := Option.some.inj (found'.symm.trans found)
    exact nonzero
  -- nothing is handed over, so the thread-count loop has nothing to do
  have counts := countThreads_noEdges (noEdges_of_roots refines (solo_calls constructed isForest))
    (r.callbackMap.keys.length + 1)
  obtain ⟨⟨timing, r'⟩, exported⟩ := exportTimingInformation_returns (r := prioritized .stored s) assigned
  have returned := callbackThreadgroupAllocation_returns traversed counts exported
  obtain ⟨forest', s', counted, allocated⟩ := exists_allocated (construct_fresh constructed .stored) returned
  exact ⟨r, constructed, _, timing, r', returned, solo_threadgroups constructed nodup allocated⟩

end Solo

/-- `n` different names. -/
def numeralNames (n : Nat) : List String := (List.range n).map fun i => String.ofList (List.replicate (i + 1) 'c')

theorem numeralNames_nodup (n : Nat) : (numeralNames n).Nodup := by
  refine List.Nodup.map (fun i j same => ?_) List.nodup_range
  have lengths := congrArg List.length (String.ofList_injective same)
  simpa using lengths

/-- **With 99 chains of one callback each a threadgroup gets the priority of the boost.** -/
theorem priorities_reach_boost :
    ∃ r, construct (subscriptionNames (numeralNames 99)) (soloGroups (numeralNames 99))
        ((numeralNames 99).map soloChain) = .ok r ∧
      ∃ stack timing r', r.callbackThreadgroupAllocation .stored stack = .ok (timing, r') ∧
        ¬ ∀ id ∈ timing.threadgroupAttributes, BelowBoost (timing.priority id) := by
  obtain ⟨r, constructed, stack, timing, r', returned, many⟩ := solo_allocates (numeralNames_nodup 99)
  refine ⟨r, constructed, stack, timing, r', returned, fun below => ?_⟩
  obtain ⟨forest, s, counted, allocated⟩ := exists_allocated (construct_fresh constructed .stored) returned
  have length : (numeralNames 99).length = 99 := by simp [numeralNames]
  obtain ⟨id, exported, isMax⟩ := allocated.exists_priority (construct_ready constructed allocated.traversed)
    (n := 99) (by decide) (by decide) (length ▸ many)
  have range := (below id exported).range
  rw [isMax] at range
  exact absurd range.2 (by decide)

end CallbackRegistry

end PreemptiveExecutor
