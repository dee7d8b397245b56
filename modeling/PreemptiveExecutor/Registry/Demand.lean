/-
# Registry.Demand — an allocation in terms of owners

The thread count of an owner is determined by the depth-first forest: the quotient
of its first callback if nobody hands over to it, and otherwise the sum over those
who do (`Demand`).  The stored indegree has 8 bits, the count 16.

`OwnerAllocation` says that an exported allocation is one of owners: the ids are
their names, and the attributes are theirs.  Every allocation that returns from a
fresh registry is one (`allocation_by_owner`).
-/
import Mathlib.Algebra.BigOperators.Group.List.Basic
import PreemptiveExecutor.Registry.Balance

namespace PreemptiveExecutor

open Theory
open Relation (ReflTransGen TransGen)

set_option autoImplicit false

namespace CallbackRegistry

variable (r : CallbackRegistry)

/-- The owners that hand over to an owner. -/
def ownersBefore (forest : Forest) (o : Owner) : List Owner :=
  ((r.handovers forest).filter fun edge => edge.2 = o).map Prod.fst

/-- An owner that a Reentrant root leads to, or such a root that hands over. -/
def Reached (forest : Forest) (o : Owner) : Prop :=
  ∃ root first, r.owner root = .segment root ∧ ⟨root, none⟩ ∈ forest ∧
    r.HandsOver forest (.segment root) first ∧ ReflTransGen (r.HandsOver forest) (.segment root) o

/-- The threads every owner is to have. -/
structure Demand (forest : Forest) (threads : Owner → Uint16) : Prop where
  first : ∀ o callback, r.Reached forest o → (r.ownersBefore forest o).length % 2 ^ 8 = 0 →
    r.firstCallback forest o = some callback →
    rootNumThreads (UnorderedMap.subscript r.adjacencyList callback) = .ok (threads o)
  sum : ∀ o, r.Reached forest o → (r.ownersBefore forest o).length % 2 ^ 8 ≠ 0 →
    threads o = ((r.ownersBefore forest o).map threads).sum
  other : ∀ o, ¬ r.Reached forest o → threads o = 1

/-- An exported allocation, read as one of owners under the names `idOf`. -/
structure OwnerAllocation (forest : Forest) (threads : Owner → Uint16) (idOf : Owner → Nat)
    (timing : TimingExport) : Prop where
  visited : ∀ name ∈ r.callbackMap, name ∈ forest.names
  registered : ∀ name ∈ forest.names, name ∈ r.callbackMap
  injective : ∀ o o', r.Opened forest o → r.Opened forest o' → idOf o = idOf o' → o = o'
  handles : ∀ ptr id, timing.callbackHandleToThreadgroupId.lookup ptr = some id ↔
    ∃ name info, r.callbackMap.lookup name = some info ∧ info.entity.rawPointer = ptr ∧
      idOf (r.joins forest name) = id
  attributes : ∀ o, r.Opened forest o → ∃ attributes,
    timing.threadgroupAttributes.lookup (idOf o) = some attributes ∧
      attributes.isMutexGroup = o.isMutex ∧ attributes.numberOfThreads = (threads o).val

variable {r} {forest : Forest} {s : TraversalState} {order : IterationOrder}

/-! ## The demand of owners -/

theorem mem_ownersBefore {o o' : Owner} : o' ∈ r.ownersBefore forest o ↔ r.HandsOver forest o' o := by
  unfold ownersBefore
  rw [List.mem_map]
  constructor
  · rintro ⟨⟨o₁, o₂⟩, member, rfl⟩
    obtain ⟨edge, same⟩ := List.mem_filter.1 member
    obtain rfl : o₂ = o := by simpa using same
    exact edge
  · exact fun edge => ⟨(o', o), List.mem_filter.2 ⟨edge, by simp⟩, rfl⟩

theorem ownersBefore_nodup (forest : Forest) (o : Owner) : (r.ownersBefore forest o).Nodup := by
  refine List.Nodup.map_on ?_ (List.Nodup.filter _ (handovers_nodup forest))
  rintro ⟨o₁, o₂⟩ member ⟨o₁', o₂'⟩ member' same
  have ends : o₂ = o := by simpa using (List.mem_filter.1 member).2
  have ends' : o₂' = o := by simpa using (List.mem_filter.1 member').2
  exact Prod.ext same (ends.trans ends'.symm)

theorem Reached.step {o o' : Owner} (reached : r.Reached forest o) (edge : r.HandsOver forest o o') :
    r.Reached forest o' :=
  let ⟨root, first, own, isRoot, handed, path⟩ := reached
  ⟨root, first, own, isRoot, handed, path.tail edge⟩

theorem Reached.opened (grown : r.Grown forest) {o : Owner} (reached : r.Reached forest o) :
    r.Opened forest o := by
  obtain ⟨root, first, -, -, handed, path⟩ := reached
  cases path with
  | refl => exact (grown.handed _ first handed).1
  | tail _ edge => exact (grown.handed _ _ edge).2

/-- **Induction along the hand-overs**, where no cycle of them is reached. -/
theorem handover_induction (grown : r.Grown forest)
    (noCycle : ∀ o, r.Reached forest o → ¬ TransGen (r.HandsOver forest) o o) {P : Owner → Prop}
    (unreached : ∀ o, ¬ r.Reached forest o → P o)
    (inherits : ∀ o, r.Reached forest o → (∀ o', r.HandsOver forest o' o → P o') → P o) (o : Owner) : P o := by
  classical
  -- the hand-overs between reached owners have no cycle
  have acyclic : Acyclic fun a b => r.Reached forest a ∧ r.HandsOver forest a b := by
    intro a cycle
    obtain ⟨b, ⟨reached, -⟩, -⟩ := TransGen.head'_iff.1 cycle
    exact noCycle a reached (cycle.lift id fun _ _ edge => edge.2)
  refine acyclic.induction_forwards ((forest.map fun call => r.owner call.callbackName).toFinset)
    (fun a b ⟨reached, _⟩ => ?_) (P := P) (fun o before => ?_) o
  · obtain ⟨call, member, -, rfl⟩ := reached.opened grown
    exact List.mem_toFinset.2 (List.mem_map_of_mem member)
  · by_cases reached : r.Reached forest o
    · refine inherits o reached fun o' edge => ?_
      by_cases reached' : r.Reached forest o'
      · exact before o' ⟨reached', edge⟩
      · exact unreached o' reached'
    · exact unreached o reached

/-- **The demand is unique** where no cycle of hand-overs is reached. -/
theorem Demand.unique (grown : r.Grown forest)
    (noCycle : ∀ o, r.Reached forest o → ¬ TransGen (r.HandsOver forest) o o) {threads threads' : Owner → Uint16}
    (demand : r.Demand forest threads) (demand' : r.Demand forest threads') (o : Owner) :
    threads o = threads' o := by
  refine handover_induction grown noCycle (P := fun o => threads o = threads' o)
    (fun o unreached => ?_) (fun o reached before => ?_) o
  · rw [demand.other o unreached, demand'.other o unreached]
  · by_cases stored : (r.ownersBefore forest o).length % 2 ^ 8 = 0
    · obtain ⟨callback, first⟩ := firstCallback_some (reached.opened grown)
      exact Except.ok.inj ((demand.first o callback reached stored first).symm.trans
        (demand'.first o callback reached stored first))
    · rw [demand.sum o reached stored, demand'.sum o reached stored]
      exact congrArg List.sum (List.map_congr_left fun o' member => before o' (mem_ownersBefore.1 member))

/-! ## The load of an owner -/

/-- The integer quotient of the root formula. -/
def quotient (info : CallbackAdjacencyInfo) : Nat :=
  match info.periods.head?, info.deadlines.max? with
  | some period, some deadline => deadline.val / period.val
  | _, _ => 0

/-- The quotients of the roots that lead to an owner add up to `n`, once for every
way from a root; an owner that the thread-count loop does not come to counts 1. -/
inductive Load (r : CallbackRegistry) (forest : Forest) : Owner → Nat → Prop
  | root {o : Owner} {callback : String} (reached : r.Reached forest o)
      (stored : (r.ownersBefore forest o).length % 2 ^ 8 = 0)
      (first : r.firstCallback forest o = some callback) :
      Load r forest o (quotient (UnorderedMap.subscript r.adjacencyList callback))
  | sum {o : Owner} (load : Owner → Nat) (reached : r.Reached forest o)
      (stored : (r.ownersBefore forest o).length % 2 ^ 8 ≠ 0)
      (before : ∀ o' ∈ r.ownersBefore forest o, Load r forest o' (load o')) :
      Load r forest o ((r.ownersBefore forest o).map load).sum
  | other {o : Owner} (unreached : ¬ r.Reached forest o) : Load r forest o 1

section Loads

variable {threads : Owner → Uint16}

theorem quotient_of_rootNumThreads {info : CallbackAdjacencyInfo} {numThreads : Uint16}
    (counted : rootNumThreads info = .ok numThreads) : numThreads.val = quotient info := by
  unfold rootNumThreads at counted
  split at counted
  · rename_i period deadline isPeriod isDeadline
    rw [quotient, isPeriod, isDeadline]
    split at counted
    · cases counted
    · split at counted
      · cases counted
        rfl
      · cases counted
  · cases counted

/-- A 16-bit sum is the sum modulo 2^16. -/
theorem sum_val (load : Owner → Nat) (owners : List Owner)
    (each : ∀ o ∈ owners, (threads o).val = load o % 2 ^ 16) :
    (owners.map threads).sum.val = (owners.map load).sum % 2 ^ 16 := by
  induction owners with
  | nil => rfl
  | cons o owners ih =>
      obtain ⟨here, later⟩ := List.forall_mem_cons.1 each
      rw [List.map_cons, List.sum_cons, Fin.val_add, here, ih later, List.map_cons, List.sum_cons,
        ← Nat.add_mod]

/-- **The threads of an owner are its load, in 16 bits.** -/
theorem Demand.load (demand : r.Demand forest threads) {o : Owner} {load : Nat} (loaded : r.Load forest o load) :
    (threads o).val = load % 2 ^ 16 := by
  induction loaded with
  | root reached stored first =>
      have value := quotient_of_rootNumThreads (demand.first _ _ reached stored first)
      rw [← value, Nat.mod_eq_of_lt (threads _).isLt]
  | sum load reached stored before ih =>
      rw [demand.sum _ reached stored]
      exact sum_val load _ ih
  | other unreached =>
      rw [demand.other _ unreached]
      rfl

/-- Without a cycle every owner has a load. -/
theorem exists_load (grown : r.Grown forest)
    (noCycle : ∀ o, r.Reached forest o → ¬ TransGen (r.HandsOver forest) o o) (o : Owner) :
    ∃ load, r.Load forest o load := by
  refine handover_induction grown noCycle (P := fun o => ∃ load, r.Load forest o load)
    (fun o unreached => ⟨1, .other unreached⟩) (fun o reached before => ?_) o
  by_cases stored : (r.ownersBefore forest o).length % 2 ^ 8 = 0
  · obtain ⟨callback, first⟩ := firstCallback_some (reached.opened grown)
    exact ⟨_, .root reached stored first⟩
  · classical
    refine ⟨_, .sum (fun o' => if loaded : ∃ load, r.Load forest o' load then loaded.choose else 0) reached
      stored fun o' member => ?_⟩
    have loaded := before o' (mem_ownersBefore.1 member)
    rw [dif_pos loaded]
    exact loaded.choose_spec

end Loads

/-! ## The counts of the loop -/

/-- The incoming edges of an owner's threadgroup are the owners before it. -/
theorem incoming_perm (order : IterationOrder) (grown : r.Grown forest) (names : TraversalState.Names r forest s)
    (links : TraversalState.Links r forest s) {o : Owner} (opened : r.Opened forest o) :
    (UnorderedMap.subscript (prioritized order s).threadgroupAdjacencyList (s.idOf o)).incoming.Perm
      ((r.ownersBefore forest o).map s.idOf) := by
  refine (subscript_arranged order s (s.idOf o)).2.symm.trans
    ((List.perm_ext_iff_of_nodup (links.nodup _) (List.Nodup.map_on ?_ (ownersBefore_nodup forest o))).2 ?_)
  · intro o₁ member₁ o₂ member₂ same
    exact names.injective o₁ o₂ (grown.handed _ _ (mem_ownersBefore.1 member₁)).1
      (grown.handed _ _ (mem_ownersBefore.1 member₂)).1 same
  · intro id
    rw [links.incoming, List.mem_map]
    constructor
    · rintro ⟨o₁, o₂, edge, isId, rfl⟩
      obtain rfl := names.injective o₁ o (grown.handed _ _ edge).2 opened isId
      exact ⟨o₂, mem_ownersBefore.2 edge, rfl⟩
    · rintro ⟨o', member, rfl⟩
      exact ⟨o, o', mem_ownersBefore.1 member, rfl, rfl⟩

/-- A threadgroup's stored indegree is the number of owners before it, modulo 256. -/
theorem indegree_prioritized (order : IterationOrder) (grown : r.Grown forest)
    (names : TraversalState.Names r forest s) (links : TraversalState.Links r forest s) {o : Owner}
    (opened : r.Opened forest o) :
    (UnorderedMap.subscript (prioritized order s).threadgroupAdjacencyList (s.idOf o)).indegree = 0 ↔
      (r.ownersBefore forest o).length % 2 ^ 8 = 0 := by
  have length := (incoming_perm order grown names links opened).length_eq
  rw [ThreadGroupAdjacencyInfo.indegree, length, List.length_map]
  exact Fin.ext_iff

/-- Every edge of the threadgroup graph is stored at both ends. -/
theorem mirrored_prioritized (order : IterationOrder) (links : TraversalState.Links r forest s) (id id' : Nat) :
    id' ∈ (UnorderedMap.subscript (prioritized order s).threadgroupAdjacencyList id).outgoing ↔
      id ∈ (UnorderedMap.subscript (prioritized order s).threadgroupAdjacencyList id').incoming := by
  rw [← (subscript_arranged order s id).1.mem_iff, ← (subscript_arranged order s id').2.mem_iff,
    links.outgoing, links.incoming]
  constructor <;> rintro ⟨o, o', edge, isId, isId'⟩ <;> exact ⟨o', o, edge, isId', isId⟩

/-- The threadgroups the loop comes to are those of the reached owners. -/
theorem counted_iff (sound : s.Sound) (grown : r.Grown forest) (names : TraversalState.Names r forest s)
    (links : TraversalState.Links r forest s) {o : Owner} (opened : r.Opened forest o) :
    (prioritized order s).Counted (s.idOf o) ↔ r.Reached forest o := by
  have edges := edge_prioritized order links
  constructor
  · rintro ⟨root, isRoot, path⟩
    obtain ⟨head, own, inForest, ⟨first, handed⟩, rfl⟩ :=
      (mem_threadgroupRoots_iff sound grown names links root).1 isRoot
    have openedRoot := (grown.handed _ first handed).1
    refine ⟨head, first, own, inForest, handed, ?_⟩
    rcases Relation.reflTransGen_iff_eq_or_transGen.1 path with same | path
    · rw [names.injective _ _ opened openedRoot same]
    · obtain ⟨o', opened', same, path'⟩ := transGen_of_names edges grown.handed names.injective openedRoot path
      rw [← names.injective _ _ opened' opened same]
      exact path'.to_reflTransGen
  · rintro ⟨root, first, own, isRoot, handed, path⟩
    exact ⟨s.idOf (.segment root),
      (mem_threadgroupRoots_iff sound grown names links _).2 ⟨root, own, isRoot, ⟨first, handed⟩, rfl⟩,
      path.lift s.idOf fun o o' edge => (edges _ _).2 ⟨o, o', edge, rfl, rfl⟩⟩

/-- The record of an owner's threadgroup in the thread-count loop. -/
theorem record_prioritized (order : IterationOrder) (sound : s.Sound) (names : TraversalState.Names r forest s) {o : Owner}
    (opened : r.Opened forest o) :
    TraversalState.RecordOf r forest o
      (UnorderedMap.subscript (prioritized order s).threadgroupCallbackMap (s.idOf o)) := by
  obtain ⟨group, found, is⟩ := names.record o opened
  obtain ⟨group', found', same⟩ := (assignFixedPriorities_sameButPriority sound).lookup_right found
  change TraversalState.RecordOf r forest o
    (UnorderedMap.subscript (assignFixedPriorities s).threadgroupCallbackMap _)
  rw [UnorderedMap.subscript_of_lookup found', same]
  exact ⟨is.isMutexGroup, is.first, is.numThreads⟩

open Classical in
/-- **The counts of the loop are the demand.** -/
theorem countThreads_demand (sound : s.Sound) (grown : r.Grown forest)
    (names : TraversalState.Names r forest s) (links : TraversalState.Links r forest s) {stack : Nat}
    {counted : CallbackRegistry} (ran : countThreads stack (prioritized order s) = .ok counted) :
    r.Demand forest fun o => if r.Opened forest o then counted.numThreadsOf (s.idOf o) else 1 := by
  have soundP := prioritized_sound sound order
  obtain ⟨balanced, kept⟩ := countThreads_balanced (mirrored_prioritized order links) ran
  have same := (countThreads_onlyNumThreads soundP stack).1 counted ran
  have balance : ∀ o, r.Reached forest o → counted.balance (s.idOf o) = .ok (counted.numThreadsOf (s.idOf o)) :=
    fun o reached => balanced _ ((counted_iff sound grown names links (reached.opened grown)).2 reached)
  have indegree : ∀ o, r.Opened forest o → ((UnorderedMap.subscript counted.threadgroupAdjacencyList
      (s.idOf o)).indegree = 0 ↔ (r.ownersBefore forest o).length % 2 ^ 8 = 0) := by
    intro o opened
    rw [same.adjacency]
    exact indegree_prioritized order grown names links opened
  refine ⟨fun o callback reached zero first => ?_, fun o reached nonzero => ?_, fun o unreached => ?_⟩
  · have opened := reached.opened grown
    have head := (record_prioritized order sound names opened).first.trans first
    have sameList : (UnorderedMap.subscript counted.threadgroupCallbackMap (s.idOf o)).callbacks =
        (UnorderedMap.subscript (prioritized order s).threadgroupCallbackMap (s.idOf o)).callbacks := by
      rw [same.subscript (s.idOf o)]
    obtain ⟨rest, isCons⟩ := List.head?_eq_some_iff.1 head
    have value := balance o reached
    simp only [CallbackRegistry.balance, if_pos ((indegree o opened).2 zero), sameList, isCons,
      same.callbackGraph] at value
    rw [if_pos opened, ← value, ← names.graph]
    rfl
  · have opened := reached.opened grown
    have value := balance o reached
    simp only [CallbackRegistry.balance, if_neg (mt (indegree o opened).1 nonzero)] at value
    rw [if_pos opened, ← Except.ok.inj value, same.adjacency]
    rw [((incoming_perm order grown names links opened).map _).sum_eq, List.map_map]
    refine congrArg List.sum (List.map_congr_left fun o' member => ?_)
    rw [Function.comp_apply, if_pos (grown.handed _ _ (mem_ownersBefore.1 member)).1]
  · split
    · rename_i opened
      have unchanged := kept _ (mt (counted_iff sound grown names links opened).1 unreached)
      rw [unchanged]
      exact (record_prioritized order sound names opened).numThreads
    · rfl

/-! ## The export -/

/-- The exported maps are those of the owners, under the ids of the traversal. -/
theorem exports_ownerAllocation (refines : TraversalState.Refines r s forest [] []) {stack : Nat}
    {counted : CallbackRegistry} (ran : countThreads stack (prioritized order s) = .ok counted)
    {timing : TimingExport} (exports : counted.Exports timing) {threads : Owner → Uint16}
    (threadsOf : ∀ o, r.Opened forest o → threads o = counted.numThreadsOf (s.idOf o)) :
    r.OwnerAllocation forest threads s.idOf timing := by
  have names := refines.names
  have same := (countThreads_onlyNumThreads (prioritized_sound refines.sound.1 order) stack).1 counted ran
  have callbacks : counted.callbackMap = s.callbackMap := same.callbackMap
  refine ⟨fun name known => ?_, fun name visited => ?_, names.injective, fun ptr id => ?_, fun o opened => ?_⟩
  · obtain ⟨info, found⟩ := UnorderedMap.mem_iff_lookup.1 ((names.same.mem_iff name).1 known)
    exact (names.visited name).2 ⟨info, found, exports.assigned name info (callbacks ▸ found)⟩
  · obtain ⟨info, found, -⟩ := (names.visited name).1 visited
    exact (names.same.mem_iff name).2 (UnorderedMap.mem_iff_lookup.2 ⟨info, found⟩)
  · rw [exports.handles, callbacks]
    constructor
    · rintro ⟨name, info, found, isPtr, isId⟩
      obtain ⟨info', found', same⟩ := names.same.lookup_left found
      have visited := (names.visited name).2 ⟨info, found, exports.assigned name info (callbacks ▸ found)⟩
      refine ⟨name, info', found', ?_, (names.joined name visited info found).symm.trans isId⟩
      rw [← isPtr, same]
    · rintro ⟨name, info, found, isPtr, isId⟩
      obtain ⟨info', found', same⟩ := names.same.lookup_right found
      have visited := (names.visited name).2 ⟨info', found', exports.assigned name info' (callbacks ▸ found')⟩
      refine ⟨name, info', found', ?_, (names.joined name visited info' found').trans isId⟩
      rw [← isPtr, same]
  · have record := record_prioritized order refines.sound.1 names opened
    have present : s.idOf o ∈ counted.threadgroupCallbackMap :=
      (same.mem_iff _).2 (((assignFixedPriorities_sameButPriority refines.sound.1).mem_iff _).1 (names.present opened))
    obtain ⟨group, found⟩ := UnorderedMap.mem_iff_lookup.1 present
    refine ⟨attributesOf group, by rw [exports.attributes, found]; rfl, ?_, ?_⟩
    · rw [← record.isMutexGroup, ← same.isMutexGroup, UnorderedMap.subscript_of_lookup found]
      rfl
    · rw [threadsOf o opened, numThreadsOf, UnorderedMap.subscript_of_lookup found]
      rfl

/-- **Every allocation that returns is one of owners**: those of the depth-first
forest, each with the threads it demands. -/
theorem allocation_by_owner {r : CallbackRegistry} (fresh : (r.arrange order).Fresh) {stack : Nat}
    {timing : TimingExport} {r' : CallbackRegistry}
    (returned : r.callbackThreadgroupAllocation order stack = .ok (timing, r')) :
    ∃ forest threads idOf, (r.arrange order).adjacencyList.DepthFirstForest forest ∧
      (r.arrange order).Grown forest ∧ (r.arrange order).Demand forest threads ∧
      (∀ o, (r.arrange order).Reached forest o → ¬ TransGen ((r.arrange order).HandsOver forest) o o) ∧
      (r.arrange order).OwnerAllocation forest threads idOf timing := by
  obtain ⟨s, counted, traversed, ran, exported⟩ := callbackThreadgroupAllocation_ok returned
  obtain ⟨forest, isForest, refines⟩ := traverseRoots_refines fresh traversed
  have sound := refines.sound.1
  have soundP := prioritized_sound sound order
  have same := (countThreads_onlyNumThreads soundP stack).1 counted ran
  obtain ⟨exports, -⟩ := exportTimingInformation_exports (same.sound soundP) exported
  classical
  refine ⟨forest, _, s.idOf, isForest, refines.grown,
    countThreads_demand sound refines.grown refines.names refines.links ran, fun o reached cycle => ?_,
    exports_ownerAllocation refines ran exports fun o opened => if_pos opened⟩
  have opened := reached.opened refines.grown
  exact not_cycle_of_counted ran _
    ((counted_iff sound refines.grown refines.names refines.links opened).2 reached)
    (transGen_names (edge_prioritized order refines.links) cycle)

end CallbackRegistry

end PreemptiveExecutor
