/-
# Executor.Urgency — deadlines and the SCHED_FIFO priorities of the workers

The priority loop counts up from 1 in ascending order of deadlines, and the number
is handed to `set_fifo_prio` as it is, where a larger number is more urgent, as
the boost to `MAX_FIFO_PRIO` has it.  So a threadgroup of smallest deadline gets
the least urgent priority there is (`workerPriority_first`), and the priorities
are deadline monotonic only where there is nothing to rank
(`priorities_deadlineMonotonic_iff`).
-/
import PreemptiveExecutor.Theory.Loop
import PreemptiveExecutor.Registry.Deadlines
import PreemptiveExecutor.Executor.Startup

namespace PreemptiveExecutor

open Theory
open Theory.OrderedMultimap (Least Recorded)

set_option autoImplicit false

/-! ## What the scheduler sees -/

/-- The SCHED_FIFO priority a thread has after `set_fifo_prio`: the system refuses
a value outside 1..99, and the refusal is not looked at. -/
def setFifoPrio (priority : Nat) : Option Nat :=
  if 1 ≤ priority ∧ priority ≤ maxFifoPrio then some priority else none

/-- Both are SCHED_FIFO priorities, and the first is the larger one. -/
def MoreUrgent (a b : Option Nat) : Prop := ∃ p q, a = some p ∧ b = some q ∧ q < p

/-- The SCHED_FIFO priority of the worker threads of a threadgroup. -/
def workerPriority (attributes : ThreadGroupAttributes) : Option Nat :=
  setFifoPrio (ExecutorState.spawnWorkerGroup attributes).threadPriority

/-- A threadgroup with a smaller deadline has more urgent workers. -/
def DeadlineMonotonic (deadlines : DeadlineMap) (timing : TimingExport) : Prop :=
  ∀ s t deadlineS deadlineT attributesS attributesT, Least deadlines s deadlineS →
    Least deadlines t deadlineT → deadlineS < deadlineT →
    timing.threadgroupAttributes.lookup s = some attributesS →
    timing.threadgroupAttributes.lookup t = some attributesT →
    MoreUrgent (workerPriority attributesS) (workerPriority attributesT)

theorem workerPriority_eq (attributes : ThreadGroupAttributes) :
    workerPriority attributes = setFifoPrio attributes.priority := by
  rw [workerPriority, ExecutorState.spawnWorkerGroup_eq]
  rfl

theorem one_le_of_setFifoPrio {priority p : Nat} (set_ : setFifoPrio priority = some p) : 1 ≤ p := by
  unfold setFifoPrio at set_
  split at set_
  · rename_i range
    cases set_
    exact range.1
  · cases set_

/-- Nothing is less urgent than priority 1. -/
theorem not_moreUrgent_one (b : Nat) : ¬ MoreUrgent (setFifoPrio 1) (setFifoPrio b) := by
  rintro ⟨p, q, isP, isQ, less⟩
  have one : p = 1 := by
    have : setFifoPrio 1 = some 1 := rfl
    rw [this] at isP
    exact (Option.some.inj isP).symm
  have := one_le_of_setFifoPrio isQ
  omega

/-! ## The threadgroup of smallest deadline -/

namespace CallbackRegistry

variable {r r' : CallbackRegistry} {order : IterationOrder} {stack : Nat} {timing : TimingExport}
  {s : TraversalState}

/-- What an allocation with the deadline map of `s` exports. -/
theorem exports_of_traversed (sound : r.Sound)
    (returned : r.callbackThreadgroupAllocation order stack = .ok (timing, r'))
    (traversed : traverseRoots stack { r with adjacencyList := order.adjacencyList r.adjacencyList } =
      .ok s) :
    s.Sound ∧ ∀ id ∈ s.threadgroupCallbackMap, ∃ attributes,
      timing.threadgroupAttributes.lookup id = some attributes ∧ attributes.priority =
        (UnorderedMap.subscript (assignFixedPriorities s).threadgroupCallbackMap id).fixedPriority.val := by
  obtain ⟨s', counted, traversed', counts, exported⟩ := callbackThreadgroupAllocation_ok returned
  rw [traversed] at traversed'
  cases traversed'
  have rearranged := sound.rearranged (order.adjacencyList r.adjacencyList)
    (UnorderedMap.sameEntries_refl (fun _ => ⟨List.Perm.refl _, List.Perm.refl _⟩) _)
  obtain ⟨soundS, -⟩ := (traverseRoots_sound rearranged stack).1 s traversed
  have soundP := prioritized_sound soundS order
  have same := (countThreads_onlyNumThreads soundP stack).1 counted counts
  obtain ⟨exports, -⟩ := exportTimingInformation_exports (same.sound soundP) exported
  refine ⟨soundS, fun id present => ?_⟩
  have inMap : id ∈ counted.threadgroupCallbackMap :=
    (same.mem_iff id).2 (((assignFixedPriorities_sameButPriority soundS).mem_iff id).1 present)
  obtain ⟨group, found⟩ := UnorderedMap.mem_iff_lookup.1 inMap
  refine ⟨attributesOf group, by rw [exports.attributes, found]; rfl, ?_⟩
  have samePriority := same.subscript id
  rw [UnorderedMap.subscript_of_lookup found] at samePriority
  change group.fixedPriority.val = _
  rw [samePriority]
  rfl

/-- **A threadgroup of smallest deadline gets the least urgent priority**: the one
the priority loop meets first. -/
theorem workerPriority_first (sound : r.Sound) (free : r.PrioritiesFree)
    (returned : r.callbackThreadgroupAllocation order stack = .ok (timing, r'))
    (traversed : traverseRoots stack { r with adjacencyList := order.adjacencyList r.adjacencyList } =
      .ok s)
    {t : Nat} {deadlineT : Uint32} (recorded : Recorded s.deadlineToThreadgroupIdMap deadlineT t) :
    ∃ first deadline attributes, Least s.deadlineToThreadgroupIdMap first deadline ∧
      (∀ deadline' id, Recorded s.deadlineToThreadgroupIdMap deadline' id → deadline ≤ deadline') ∧
      timing.threadgroupAttributes.lookup first = some attributes ∧ attributes.priority = 1 := by
  obtain ⟨soundS, exported⟩ := exports_of_traversed sound returned traversed
  have ready : s.ReadyForPriorities := by
    rcases ((free.arranged order).traverseRoots stack).1 s traversed with empty | ready
    · rw [empty] at recorded
      exact absurd recorded (OrderedMultimap.not_recorded_nil _ _)
    · exact ready
  cases values : OrderedMultimap.values s.deadlineToThreadgroupIdMap with
  | nil =>
      have := OrderedMultimap.mem_values.2 ⟨deadlineT, recorded⟩
      rw [values] at this
      cases this
  | cons first rest =>
      obtain ⟨deadline, atFirst, least⟩ := OrderedMultimap.least_head ready.ordered values
      obtain ⟨attributes, found, priority⟩ := exported first (soundS.deadlines deadline first atFirst)
      rw [assignFixedPriorities_first values (ready.unprioritized first)] at priority
      exact ⟨first, deadline, attributes, ⟨atFirst, fun key inMap => least key first inMap⟩, least, found,
        priority⟩

/-- **The priorities of the workers are deadline monotonic exactly when all
threadgroups have the same smallest deadline.** -/
theorem priorities_deadlineMonotonic_iff {preRegistered : PreRegisteredNames}
    {weakGroupsToNodes : WeakCallbackGroupsToNodesMap} {userChains : List UserChain}
    (inst : Instance preRegistered weakGroupsToNodes userChains r)
    (returned : r.callbackThreadgroupAllocation order stack = .ok (timing, r'))
    (traversed : traverseRoots stack { r with adjacencyList := order.adjacencyList r.adjacencyList } =
      .ok s) :
    DeadlineMonotonic s.deadlineToThreadgroupIdMap timing ↔
      ∀ id id' deadline deadline', Least s.deadlineToThreadgroupIdMap id deadline →
        Least s.deadlineToThreadgroupIdMap id' deadline' → deadline = deadline' := by
  have sound := inst.sound.1
  constructor
  · intro monotonic
    have noLater : ∀ id deadline, Least s.deadlineToThreadgroupIdMap id deadline →
        ∀ deadline' id', Recorded s.deadlineToThreadgroupIdMap deadline' id' → deadline ≤ deadline' := by
      intro id deadline atId deadline' id' recorded
      obtain ⟨first, deadline₁, attributes₁, atFirst, least, found₁, one⟩ :=
        workerPriority_first sound inst.prioritiesFree returned traversed recorded
      by_contra later
      have between : deadline₁ < deadline := lt_of_le_of_lt (least _ _ recorded) (not_le.1 later)
      obtain ⟨soundS, exported⟩ := exports_of_traversed sound returned traversed
      obtain ⟨attributes, found, -⟩ := exported id (soundS.deadlines _ _ atId.1)
      have urgent := monotonic first id deadline₁ deadline attributes₁ attributes atFirst atId between
        found₁ found
      rw [workerPriority_eq, workerPriority_eq, one] at urgent
      exact not_moreUrgent_one _ urgent
    intro id id' deadline deadline' atId atId'
    exact le_antisymm (noLater _ _ atId _ _ atId'.1) (noLater _ _ atId' _ _ atId.1)
  · intro same id id' deadline deadline' _ _ atId atId' less
    exact absurd (same id id' deadline deadline' atId atId') (ne_of_lt less)

/-! ### Two chains -/

def drivingGroup : CallbackGroup :=
  { ptr := 1, type := .reentrant, canBeTakenFrom := true, subscriptions := [11, 12, 13, 14],
    services := [], clients := [], timers := [], waitables := [] }

def drivingNames : PreRegisteredNames :=
  (((∅ : PreRegisteredNames).insert 11 "lidar").insert 12 "brake").insert 13 "camera" |>.insert 14 "log"

def drivingChains (loggingDeadline : Uint32) : List UserChain :=
  [{ chainName := "braking", callbacks := ["lidar", "brake"], deadline := 10, period := 10 },
    { chainName := "logging", callbacks := ["camera", "log"], deadline := loggingDeadline, period := 10 }]

/-- What the allocation records and returns for these chains. -/
theorem driving_allocates (loggingDeadline : Uint32) (deadlines : DeadlineMap)
    (first second : Option ThreadGroupAttributes)
    (runs : (construct drivingNames [⟨some drivingGroup, some 100⟩]
        (drivingChains loggingDeadline)).toOption.any (fun r =>
          (traverseRoots 8 r).toOption.any fun s =>
            (r.callbackThreadgroupAllocation .stored 8).toOption.any fun result =>
              s.deadlineToThreadgroupIdMap = deadlines ∧
                result.1.threadgroupAttributes.lookup 1 = first ∧
                result.1.threadgroupAttributes.lookup 2 = second) = true) :
    ∃ r s timing r', construct drivingNames [⟨some drivingGroup, some 100⟩]
        (drivingChains loggingDeadline) = .ok r ∧
      traverseRoots 8 r = .ok s ∧ r.callbackThreadgroupAllocation .stored 8 = .ok (timing, r') ∧
      s.deadlineToThreadgroupIdMap = deadlines ∧ timing.threadgroupAttributes.lookup 1 = first ∧
      timing.threadgroupAttributes.lookup 2 = second := by
  obtain ⟨r, constructed, runs⟩ := Loop.exists_ok_of_any runs
  obtain ⟨s, traversed, runs⟩ := Loop.exists_ok_of_any runs
  obtain ⟨result, returned, runs⟩ := Loop.exists_ok_of_any runs
  obtain ⟨deadlines_, first_, second_⟩ := of_decide_eq_true runs
  exact ⟨r, s, result.1, result.2, constructed, traversed, returned, deadlines_, first_, second_⟩

/-- **The chain with the tighter deadline gets the less urgent workers**: 1 for
a deadline of 10, 2 for a deadline of 500. -/
theorem priorities_inverted :
    ∃ r s timing r', construct drivingNames [⟨some drivingGroup, some 100⟩] (drivingChains 500) = .ok r ∧
      traverseRoots 8 r = .ok s ∧ r.callbackThreadgroupAllocation .stored 8 = .ok (timing, r') ∧
      ¬ DeadlineMonotonic s.deadlineToThreadgroupIdMap timing := by
  -- the traversal meets the logging chain first, which becomes threadgroup 1
  obtain ⟨r, s, timing, r', constructed, traversed, returned, deadlines, first, second⟩ :=
    driving_allocates 500 [(10, [2]), (500, [1])] (some ⟨1, 1, 2, false⟩) (some ⟨2, 1, 1, false⟩) (by decide)
  refine ⟨r, s, timing, r', constructed, traversed, returned, fun monotonic => ?_⟩
  have loggingIs : Least ([(10, [2]), (500, [1])] : DeadlineMap) 1 500 := by
    simp [Least, OrderedMultimap.recorded_cons]
  have brakingIs : Least ([(10, [2]), (500, [1])] : DeadlineMap) 2 10 := by
    simp [Least, OrderedMultimap.recorded_cons]
  rw [deadlines] at monotonic
  have urgent := monotonic 2 1 10 500 _ _ brakingIs loggingIs (by decide) second first
  rw [workerPriority_eq, workerPriority_eq] at urgent
  exact not_moreUrgent_one _ urgent

/-- With equal deadlines there is nothing to rank. -/
theorem priorities_deadlineMonotonic_equalDeadlines :
    ∃ r s timing r', construct drivingNames [⟨some drivingGroup, some 100⟩] (drivingChains 10) = .ok r ∧
      traverseRoots 8 r = .ok s ∧ r.callbackThreadgroupAllocation .stored 8 = .ok (timing, r') ∧
      DeadlineMonotonic s.deadlineToThreadgroupIdMap timing := by
  obtain ⟨r, s, timing, r', constructed, traversed, returned, deadlines, -, -⟩ :=
    driving_allocates 10 [(10, [1, 2])] (some ⟨1, 1, 1, false⟩) (some ⟨2, 1, 2, false⟩) (by decide)
  refine ⟨r, s, timing, r', constructed, traversed, returned, ?_⟩
  refine (priorities_deadlineMonotonic_iff (.constructed constructed) returned traversed).2 ?_
  rw [deadlines]
  intro id id' deadline deadline' atId atId'
  have only : ∀ {id deadline}, Least ([(10, [1, 2])] : DeadlineMap) id deadline → deadline = 10 := by
    rintro id deadline ⟨recorded, -⟩
    simp [OrderedMultimap.recorded_cons] at recorded
    exact recorded.1
  rw [only atId, only atId']

end CallbackRegistry

end PreemptiveExecutor
