/-
# Registry.Records — what the traversal writes down

Beside the threadgroup ids, a visit writes to two places.  The deadline map gets
the `min_deadline` of a callback that comes to the threadgroup of its own owner,
and of no other.  A member list gets such a callback at its own visit, and an only
successor at the visit of its predecessor, in the threadgroup that one goes on in.

`Records r forest s` says so of the callbacks in the depth-first forest, and
`traverseRoots_records` that the root loop ends with it.  `Allocated` collects what
is known of an allocation that returns: its stages, the forest behind them, and the
exported maps.
-/
import PreemptiveExecutor.Registry.Deadlines
import PreemptiveExecutor.Registry.Demand

namespace PreemptiveExecutor

open Theory
open CallbackRegistry (Opened)

set_option autoImplicit false

/-- The successor of a callback that has no other. -/
def AdjacencyList.onlySuccessor (adjacencyList : AdjacencyList) (callbackName : String) : Option String :=
  match adjacencyList.outgoing callbackName with
  | [next] => some next
  | _ => none

theorem AdjacencyList.onlySuccessor_eq_some {adjacencyList : AdjacencyList} {callbackName next : String} :
    adjacencyList.onlySuccessor callbackName = some next ↔ adjacencyList.outgoing callbackName = [next] := by
  unfold AdjacencyList.onlySuccessor
  split
  · rename_i only edges
    rw [edges, Option.some_inj, List.singleton_inj]
  · rename_i several
    exact ⟨fun h => (by cases h), fun edges => absurd edges (several next)⟩

theorem AdjacencyList.followed_onlySuccessor {adjacencyList : AdjacencyList} {callbackName next : String}
    (only : adjacencyList.onlySuccessor callbackName = some next) :
    next ∈ adjacencyList.followed callbackName := by
  rw [AdjacencyList.followed_cons (AdjacencyList.onlySuccessor_eq_some.1 only)]
  split <;> exact List.mem_singleton_self _

namespace TraversalState

/-! ## What a visit writes -/

section Writes

variable (s : TraversalState) (callbackName : String) (info : CallbackInfo)

/-- The member list of a threadgroup, by its id. -/
def callbacksOf (threadgroupId : Nat) : List String :=
  (UnorderedMap.subscript s.threadgroupCallbackMap threadgroupId).callbacks

theorem callbacksOf_newThreadgroupId (id : Nat) :
    (s.newThreadgroupId info).2.callbacksOf id = s.callbacksOf id := by
  unfold newThreadgroupId
  split
  · rfl
  · simp only
    split
    · unfold callbacksOf updateThreadgroup
      rw [UnorderedMap.subscript_update]
      split
      · rename_i same
        rw [same]
        rfl
      · rfl
    · rfl

theorem callbacksOf_pushCallback (threadgroupId : Nat) (id : Nat) :
    (s.pushCallback threadgroupId callbackName).callbacksOf id =
      s.callbacksOf id ++ if id = threadgroupId then [callbackName] else [] := by
  unfold callbacksOf pushCallback updateThreadgroup
  rw [UnorderedMap.subscript_update]
  split
  · rename_i same
    rw [same]
  · exact (List.append_nil _).symm

theorem deadlines_newThreadgroupId :
    (s.newThreadgroupId info).2.deadlineToThreadgroupIdMap = s.deadlineToThreadgroupIdMap := by
  unfold newThreadgroupId
  split
  · rfl
  · simp only
    split <;> rfl

/-- A callback that comes to a threadgroup is appended to its list and records its deadline. -/
theorem enterThreadgroup_writes :
    (∀ id, (s.enterThreadgroup callbackName info).2.callbacksOf id =
      s.callbacksOf id ++ if id = (s.enterThreadgroup callbackName info).1 then [callbackName] else []) ∧
    (s.enterThreadgroup callbackName info).2.deadlineToThreadgroupIdMap =
      OrderedMultimap.pushBack (s.adjacencyList.minDeadline callbackName)
        (s.enterThreadgroup callbackName info).1 s.deadlineToThreadgroupIdMap := by
  constructor
  · intro id
    rw [← callbacksOf_newThreadgroupId s info id]
    change ((s.newThreadgroupId info).2.updateThreadgroup (s.newThreadgroupId info).1 _).callbacksOf id =
      _ ++ if id = (s.newThreadgroupId info).1 then _ else _
    unfold callbacksOf updateThreadgroup
    rw [UnorderedMap.subscript_update]
    split
    · rename_i same
      rw [same]
    · exact (List.append_nil _).symm
  · change OrderedMultimap.pushBack ((s.newThreadgroupId info).2.adjacencyList.minDeadline callbackName) _
      (s.newThreadgroupId info).2.deadlineToThreadgroupIdMap = _
    rw [(newThreadgroupId_frame s info).2, deadlines_newThreadgroupId]
    rfl

/-- What group assignment writes for a callback that comes to a threadgroup: the
edge to it touches neither lists nor deadlines. -/
theorem assignThreadgroup_writes {threadgroupId : Nat} (comes : threadgroupId = 0 ∨ info.isMutex = true)
    (prevThreadgroupId : Nat) :
    ∃ own, (∃ info', (s.assignThreadgroup callbackName info threadgroupId prevThreadgroupId).2.callbackMap.lookup
        callbackName = some info' ∧ info'.threadgroupId = own) ∧
      (∀ id, (s.assignThreadgroup callbackName info threadgroupId prevThreadgroupId).2.callbacksOf id =
        s.callbacksOf id ++ if id = own then [callbackName] else []) ∧
      (s.assignThreadgroup callbackName info threadgroupId prevThreadgroupId).2.deadlineToThreadgroupIdMap =
        OrderedMultimap.pushBack (s.adjacencyList.minDeadline callbackName) own s.deadlineToThreadgroupIdMap := by
  obtain ⟨callbacks, deadlines⟩ := enterThreadgroup_writes s callbackName info
  have assigned : (s.enterThreadgroup callbackName info).2.callbackMap.lookup callbackName =
      some { info with threadgroupId := (s.enterThreadgroup callbackName info).1 } := by
    rw [(enterThreadgroup_frame s callbackName info).1, AList.lookup_insert]
  refine ⟨(s.enterThreadgroup callbackName info).1, ?_⟩
  unfold assignThreadgroup
  rw [if_pos comes]
  simp only
  split
  · unfold linkThreadgroups
    split <;> exact ⟨⟨_, assigned, rfl⟩, callbacks, deadlines⟩
  · exact ⟨⟨_, assigned, rfl⟩, callbacks, deadlines⟩

theorem pushOnlySuccessor_eq (threadgroupId : Nat) :
    s.pushOnlySuccessor callbackName threadgroupId =
      match s.adjacencyList.onlySuccessor callbackName with
      | some next => s.pushCallback threadgroupId next
      | none => s := by
  unfold pushOnlySuccessor AdjacencyList.onlySuccessor
  cases s.adjacencyList.outgoing callbackName with
  | nil => rfl
  | cons next others => cases others <;> rfl

theorem callbacksOf_pushOnlySuccessor (threadgroupId id : Nat) :
    (s.pushOnlySuccessor callbackName threadgroupId).callbacksOf id =
      s.callbacksOf id ++
        if id = threadgroupId then (s.adjacencyList.onlySuccessor callbackName).toList else [] := by
  rw [pushOnlySuccessor_eq]
  cases s.adjacencyList.onlySuccessor callbackName with
  | none => rw [Option.toList_none, ite_self, List.append_nil]
  | some next => exact callbacksOf_pushCallback s next threadgroupId id

theorem deadlines_pushOnlySuccessor (threadgroupId : Nat) :
    (s.pushOnlySuccessor callbackName threadgroupId).deadlineToThreadgroupIdMap =
      s.deadlineToThreadgroupIdMap := by
  rw [pushOnlySuccessor_eq]
  cases s.adjacencyList.onlySuccessor callbackName <;> rfl

end Writes

end TraversalState

/-! ## The records of a forest -/

namespace CallbackRegistry

variable (r : CallbackRegistry)

/-- What the visit of a callback appends to the member list of an owner. -/
def pushes (forest : Forest) (call : FirstCall) (o : Owner) : List String :=
  (if r.opens call = true ∧ r.owner call.callbackName = o then [call.callbackName] else []) ++
    if r.carries forest call.callbackName = o then
      (r.adjacencyList.onlySuccessor call.callbackName).toList
    else []

/-- The member list of an owner's threadgroup. -/
def members (forest : Forest) (o : Owner) : List String :=
  forest.reverse.flatMap fun call => r.pushes forest call o

variable {r} {forest : Forest} {call : FirstCall}

/-- A callback that comes later changes nothing of what others have pushed. -/
theorem pushes_other {call' : FirstCall} (other : call'.callbackName ≠ call.callbackName) (o : Owner) :
    r.pushes (call :: forest) call' o = r.pushes forest call' o := by
  rw [pushes, carries_other other, pushes]

theorem members_cons (new : call.callbackName ∉ forest.names) (o : Owner) :
    r.members (call :: forest) o = r.members forest o ++ r.pushes (call :: forest) call o := by
  unfold members
  rw [List.reverse_cons, List.flatMap_append, List.flatMap_singleton]
  congr 1
  refine List.flatMap_congr fun call' member => pushes_other (fun same => ?_) o
  exact new (same ▸ List.mem_map_of_mem (List.mem_reverse.1 member))

/-- An owner without a threadgroup has no members. -/
theorem Grown.members_unopened (grown : r.Grown forest) {o : Owner} (unopened : ¬ r.Opened forest o) :
    r.members forest o = [] := by
  refine List.flatMap_eq_nil_iff.2 fun call member => ?_
  rw [List.mem_reverse] at member
  have notOpens : ¬ (r.opens call = true ∧ r.owner call.callbackName = o) :=
    fun ⟨opens, own⟩ => unopened ⟨call, member, opens, own⟩
  have notCarried : r.carries forest call.callbackName ≠ o :=
    fun carries => unopened (carries ▸ grown.carried _ (List.mem_map_of_mem member))
  rw [pushes, if_neg notOpens, if_neg notCarried, List.append_nil]

end CallbackRegistry

namespace TraversalState

/-- The deadline map and the member lists are those of the callbacks in the forest. -/
structure Records (r : CallbackRegistry) (forest : Forest) (s : TraversalState) : Prop where
  ordered : OrderedMultimap.Ordered s.deadlineToThreadgroupIdMap
  deadlines : ∀ deadline id, OrderedMultimap.Recorded s.deadlineToThreadgroupIdMap deadline id ↔
    ∃ call ∈ forest, r.opens call = true ∧ s.idOf (r.owner call.callbackName) = id ∧
      r.adjacencyList.minDeadline call.callbackName = deadline
  members : ∀ o, r.Opened forest o → s.callbacksOf (s.idOf o) = r.members forest o

variable {r : CallbackRegistry} {forest : Forest} {s s₁ s' : TraversalState} {first : FirstCall}

/-- The code creates or looks up a threadgroup for the callbacks that come to one. -/
theorem Stands.comes {call : Call} (stands : Stands r forest s call first) (names : Names r forest s)
    (sound : s.Sound) (grown : r.Grown forest) {info : CallbackInfo}
    (found : s.callbackMap.lookup first.callbackName = some info) :
    (call.threadgroupId = 0 ∨ info.isMutex = true) ↔ r.opens first = true := by
  have inherits : call.threadgroupId = 0 ↔ r.entered first.caller = true := by
    cases caller : first.caller with
    | none => exact ⟨fun _ => rfl, fun _ => (stands.root caller).1⟩
    | some before =>
        have known := grown.carried before (stands.known before caller)
        cases continuing : r.adjacencyList.continues before with
        | true =>
            rw [stands.inherited before caller continuing]
            simp [CallbackRegistry.entered, continuing, names.nonzero sound known]
        | false =>
            rw [(stands.restarted before caller continuing).1]
            simp [CallbackRegistry.entered, continuing]
  rw [CallbackRegistry.opens, Bool.or_eq_true, names.owner found, owner_isMutex, inherits, or_comm]

/-- What the group assignment of one more callback records, in terms of owners. -/
theorem assignThreadgroup_records (records : Records r forest s) (names : Names r forest s)
    (sound : s.Sound) (grown : r.Grown forest) {call : Call} (stands : Stands r forest s call first)
    {info : CallbackInfo} {id : Nat} (found : s.callbackMap.lookup first.callbackName = some info)
    (assigned : s.assignThreadgroup first.callbackName info call.threadgroupId call.prevThreadgroupId = (id, s₁))
    (named : Names r (first :: forest) s₁) :
    (∀ id, s₁.callbacksOf id = s.callbacksOf id ++
      if r.opens first = true ∧ s₁.idOf (r.owner first.callbackName) = id then [first.callbackName] else []) ∧
    OrderedMultimap.Ordered s₁.deadlineToThreadgroupIdMap ∧
    ∀ deadline id, OrderedMultimap.Recorded s₁.deadlineToThreadgroupIdMap deadline id ↔
      (r.opens first = true ∧ s₁.idOf (r.owner first.callbackName) = id ∧
        r.adjacencyList.minDeadline first.callbackName = deadline) ∨
      OrderedMultimap.Recorded s.deadlineToThreadgroupIdMap deadline id := by
  have comes := stands.comes names sound grown found
  cases opens : r.opens first with
  | true =>
      obtain ⟨own, ⟨info', found', isOwn⟩, callbacks, deadlines⟩ :=
        assignThreadgroup_writes s first.callbackName info (comes.2 opens) call.prevThreadgroupId
      rw [assigned] at found' callbacks deadlines
      have ownId : s₁.idOf (r.owner first.callbackName) = own := by
        have joined := named.joined _ (CallbackRegistry.mem_names_cons.2 (Or.inl rfl)) info' found'
        rw [CallbackRegistry.joins_of_opens opens] at joined
        exact joined.symm.trans isOwn
      refine ⟨fun id => ?_, ?_, fun deadline id => ?_⟩
      · rw [callbacks, ownId]
        simp only [true_and, eq_comm]
      · rw [deadlines]
        exact records.ordered.pushBack _ _
      · rw [deadlines, OrderedMultimap.recorded_pushBack, ownId, names.graph]
        simp only [true_and, eq_comm, and_comm]
  | false =>
      have inherited : call.threadgroupId ≠ 0 ∧ info.isMutex = false := by
        rw [← Bool.not_eq_true, ← not_or, comes, opens]
        exact Bool.false_ne_true
      rw [assignThreadgroup_inherited inherited.1 inherited.2] at assigned
      obtain ⟨-, rfl⟩ := Prod.mk.inj assigned
      refine ⟨fun id => ?_, records.ordered, fun deadline id => ?_⟩
      · simp only [Bool.false_eq_true, false_and, if_false, List.append_nil]
        rfl
      · simp only [Bool.false_eq_true, false_and, false_or]
        rfl

/-- The id of a new threadgroup names no earlier record. -/
theorem Names.new_id (names : Names r forest s) (named : Names r (first :: forest) s₁)
    (stable : ∀ o, r.Opened forest o → s₁.idOf o = s.idOf o) {o : Owner}
    (opened : r.Opened (first :: forest) o) (new : ¬ r.Opened forest o) :
    s₁.idOf o ∉ s.threadgroupCallbackMap := by
  intro present
  obtain ⟨o', opened', same⟩ := names.onto _ present
  rw [← stable o' opened'] at same
  obtain rfl := named.injective o' o opened'.cons opened same
  exact new opened'

/-- The members an owner had before a visit are in its list then. -/
theorem Records.members_before (records : Records r forest s) (grown : r.Grown forest) (names : Names r forest s)
    (named : Names r (first :: forest) s₁) (stable : ∀ o, r.Opened forest o → s₁.idOf o = s.idOf o) {o : Owner}
    (opened : r.Opened (first :: forest) o) : s.callbacksOf (s₁.idOf o) = r.members forest o := by
  by_cases old : r.Opened forest o
  · rw [stable o old, records.members o old]
  · rw [grown.members_unopened old, callbacksOf, UnorderedMap.subscript,
      AList.lookup_eq_none.2 (names.new_id named stable opened old)]
    rfl

/-- **Every visit records what the search adds to the forest.** -/
theorem visit_records {call : Call} {rest calls : List Call} {rest' firsts : List FirstCall}
    {forest' : Forest} (refines : Refines r s forest (call :: rest) (first :: rest'))
    (records : Records r forest s) (visited : visit s call = .ok (s', calls))
    (visited' : visitForest r.adjacencyList forest first = .ok (forest', firsts))
    (refines' : Refines r s' forest' (calls ++ rest) (firsts ++ rest')) : Records r forest' s' := by
  obtain ⟨sound, grown, names, links, stands⟩ := refines
  obtain ⟨here, -⟩ := List.forall₂_cons.1 stands
  obtain ⟨name, threadgroupId, prevThreadgroupId⟩ := call
  obtain rfl : name = first.callbackName := here.name
  rcases visit_ok visited with ⟨info, found, done, rfl, rfl⟩ |
    ⟨info, id, s₁, found, unassigned, assigned, rfl, rfl⟩
  · have old : first.callbackName ∈ forest.names := (names.visited _).2 ⟨info, found, done⟩
    rw [visitForest, if_pos old] at visited'
    cases visited'
    exact records
  · have new : first.callbackName ∉ forest.names := by
      rw [names.visited]
      rintro ⟨info', found', done⟩
      rw [found] at found'
      cases found'
      exact done unassigned
    rw [visitForest, if_neg new] at visited'
    cases visited'
    obtain ⟨named, -, stable, isId⟩ :=
      assignThreadgroup_refines names links sound.1 grown here new found assigned
    have grown' := refines'.grown
    have opened := grown'.carried _ (CallbackRegistry.mem_names_cons.2 (Or.inl rfl))
    obtain ⟨appended, groups, -⟩ :=
      pushOnlySuccessor_appends s₁ (isId ▸ named.present opened) first.callbackName
    have sameId := (named.of_same (pushOnlySuccessor_adjacencyList ..)
      (pushOnlySuccessor_callbackMap ..) groups appended).2
    obtain ⟨callbacks, ordered, deadlines⟩ :=
      assignThreadgroup_records records names sound.1 grown here found assigned named
    refine ⟨?_, fun deadline id => ?_, fun o at_ => ?_⟩
    · rw [deadlines_pushOnlySuccessor]
      exact ordered
    · rw [deadlines_pushOnlySuccessor, deadlines, records.deadlines]
      simp only [sameId, List.exists_mem_cons_iff]
      refine or_congr Iff.rfl (exists_congr fun call => and_congr_right fun member => and_congr_right fun opens => ?_)
      rw [stable _ ⟨call, member, opens, rfl⟩]
    · rw [sameId, callbacksOf_pushOnlySuccessor, callbacks, CallbackRegistry.members_cons new,
        List.append_assoc, named.graph]
      congr 1
      · exact records.members_before grown names named stable at_
      · have own : (r.opens first = true ∧ s₁.idOf (r.owner first.callbackName) = s₁.idOf o) ↔
            (r.opens first = true ∧ r.owner first.callbackName = o) :=
          and_congr_right fun opens => ⟨fun same => named.injective _ _
            ⟨first, List.mem_cons_self, opens, rfl⟩ at_ same, fun same => by rw [same]⟩
        have carried : s₁.idOf o = id ↔ r.carries (first :: forest) first.callbackName = o := by
          rw [isId]
          exact ⟨fun same => (named.injective _ _ at_ opened same).symm, fun same => by rw [same]⟩
        rw [CallbackRegistry.pushes]
        simp only [own, carried]

end TraversalState

namespace CallbackRegistry

variable {r : CallbackRegistry}

/-- **The root loop records the depth-first forest.** -/
theorem traverseRoots_records (fresh : r.Fresh) {stack : Nat} {s : TraversalState}
    (ran : r.traverseRoots stack = .ok s) :
    ∃ forest, r.adjacencyList.DepthFirstForest forest ∧ TraversalState.Refines r s forest [] [] ∧
      TraversalState.Records r forest s := by
  have start : TraversalState.Records r [] r.start := by
    refine ⟨OrderedMultimap.ordered_nil, fun deadline id => ?_, fun o ⟨_, member, _⟩ => by cases member⟩
    exact ⟨fun recorded => absurd recorded (OrderedMultimap.not_recorded_nil _ _),
      fun ⟨_, member, _⟩ => by cases member⟩
  rw [traverseRoots_eq] at ran
  obtain ⟨forest, ran', refines, records⟩ := DepthFirst.dfsAll_simulates
    (fun s forest calls firsts => TraversalState.Refines r s forest calls firsts ∧
      TraversalState.Records r forest s)
    (fun s forest call first rest rest' s' calls ⟨refines, records⟩ visited => by
      obtain ⟨forest', firsts, visited', len, refines'⟩ := TraversalState.visit_refines refines visited
      exact ⟨forest', firsts, visited', len, refines',
        TraversalState.visit_records refines records visited visited' refines'⟩)
    (fun _ => ()) stack r.rootCalls [] (r.adjacencyList.roots.map (⟨·, none⟩)) [] r.start s []
    (by simp [rootCalls]) ⟨by simpa using refines_start fresh, start⟩ ran
  exact ⟨forest, ⟨stack, ran'⟩, refines, records⟩

end CallbackRegistry

/-- What follows a visited callback is visited. -/
theorem TraversalState.Refines.visited_followed {r : CallbackRegistry} {s : TraversalState} {forest : Forest}
    (refines : TraversalState.Refines r s forest [] []) (fresh : r.Fresh) {stack : Nat}
    (traversed : r.traverseRoots stack = .ok s) {name next : String} (visited : name ∈ forest.names)
    (follows : next ∈ r.adjacencyList.followed name) : next ∈ forest.names := by
  have assigned := CallbackRegistry.traverseRoots_assigned fresh.sound fresh.unassigned traversed
  obtain ⟨root, isRoot, reached⟩ := (assigned name).1 ((refines.names.visited name).1 visited)
  exact (refines.names.visited next).2 ((assigned next).2 ⟨root, isRoot, reached.tail follows⟩)

/-! ## An allocation that returns -/

namespace CallbackRegistry

variable {r : CallbackRegistry}

section Owners

variable {forest : Forest} {name : String}

/-- The owner of a registered callback. -/
theorem owner_of_lookup {info : CallbackInfo} (found : r.callbackMap.lookup name = some info) :
    r.owner name = info.owner name := by
  rw [owner, found]

theorem owner_isMutex_of_lookup {info : CallbackInfo}
    (found : r.callbackMap.lookup name = some info) : (r.owner name).isMutex = info.isMutex := by
  rw [owner_of_lookup found, TraversalState.owner_isMutex]

end Owners

/-- The stages of an allocation, and the depth-first forest behind them. -/
structure Allocated (order : IterationOrder) (stack : Nat) (r : CallbackRegistry) (timing : TimingExport)
    (forest : Forest) (s : TraversalState) (counted : CallbackRegistry) : Prop where
  traversed : traverseRoots stack (r.arrange order) = .ok s
  counts : countThreads stack (prioritized order s) = .ok counted
  isForest : (r.arrange order).adjacencyList.DepthFirstForest forest
  refines : TraversalState.Refines (r.arrange order) s forest [] []
  records : TraversalState.Records (r.arrange order) forest s
  same : OnlyNumThreads (prioritized order s) counted
  exports : counted.Exports timing

variable {order : IterationOrder} {stack : Nat} {timing : TimingExport} {forest : Forest}
  {s : TraversalState} {counted : CallbackRegistry}

theorem exists_allocated (fresh : (r.arrange order).Fresh) {r' : CallbackRegistry}
    (returned : r.callbackThreadgroupAllocation order stack = .ok (timing, r')) :
    ∃ forest s counted, Allocated order stack r timing forest s counted := by
  obtain ⟨s, counted, traversed, counts, exported⟩ := callbackThreadgroupAllocation_ok returned
  obtain ⟨forest, isForest, refines, records⟩ := traverseRoots_records fresh traversed
  have soundP := prioritized_sound refines.sound.1 order
  have same := (countThreads_onlyNumThreads soundP stack).1 counted counts
  exact ⟨forest, s, counted, traversed, counts, isForest, refines, records, same,
    (exportTimingInformation_exports (same.sound soundP) exported).1⟩

/-- The traversal of an allocation is the one that runs. -/
theorem exists_allocated_of_traversed (fresh : (r.arrange order).Fresh) {r' : CallbackRegistry}
    (returned : r.callbackThreadgroupAllocation order stack = .ok (timing, r'))
    (traversed : traverseRoots stack (r.arrange order) = .ok s) :
    ∃ forest counted, Allocated order stack r timing forest s counted := by
  obtain ⟨forest, s', counted, allocated⟩ := exists_allocated fresh returned
  obtain rfl : s = s' := Except.ok.inj (traversed.symm.trans allocated.traversed)
  exact ⟨forest, counted, allocated⟩

namespace Allocated

variable (allocated : Allocated order stack r timing forest s counted)

include allocated

/-- The threadgroups are exported, and no others. -/
theorem mem_exported (id : Nat) : id ∈ timing.threadgroupAttributes ↔ id ∈ s.threadgroupCallbackMap := by
  have sound := allocated.refines.sound.1
  rw [(assignFixedPriorities_sameButPriority sound).mem_iff id]
  change _ ↔ id ∈ (prioritized order s).threadgroupCallbackMap
  rw [← allocated.same.mem_iff id, UnorderedMap.mem_iff_lookup, UnorderedMap.mem_iff_lookup,
    allocated.exports.attributes]
  simp

/-- The threadgroups are those of the owners in the forest. -/
theorem mem_iff_owner (id : Nat) : id ∈ s.threadgroupCallbackMap ↔
    ∃ o, (r.arrange order).Opened forest o ∧ s.idOf o = id :=
  ⟨allocated.refines.names.onto id, fun ⟨_, opened, isId⟩ => isId ▸ allocated.refines.names.present opened⟩

/-- The exported maps are those of the owners. -/
theorem ownerAllocation : (r.arrange order).OwnerAllocation forest
    (fun o => counted.numThreadsOf (s.idOf o)) s.idOf timing :=
  exports_ownerAllocation allocated.refines allocated.counts allocated.exports fun _ _ => rfl

/-- What is exported of a threadgroup. -/
theorem attributes {id : Nat} {attributes : ThreadGroupAttributes}
    (found : timing.threadgroupAttributes.lookup id = some attributes) :
    attributes.priority =
        (UnorderedMap.subscript (assignFixedPriorities s).threadgroupCallbackMap id).fixedPriority.val ∧
      attributes.numberOfThreads = (counted.numThreadsOf id).val := by
  rw [allocated.exports.attributes] at found
  obtain ⟨group, atId, rfl⟩ := Option.map_eq_some_iff.1 found
  have samePriority := allocated.same.subscript id
  rw [UnorderedMap.subscript_of_lookup atId] at samePriority
  constructor
  · change group.fixedPriority.val = _
    rw [samePriority]
    rfl
  · rw [numThreadsOf, UnorderedMap.subscript_of_lookup atId]
    rfl

end Allocated

end CallbackRegistry

end PreemptiveExecutor
