/-
# Executor.Staffing — which worker groups get a thread

`populate_ready_queues` enqueues a bundle with the worker group of its threadgroup
and waits for nobody: a worker group that `spawn_worker_groups` has given no thread
keeps the bundle.  A mutex group always has its one thread.  Any other threadgroup
the thread-count loop comes to has as many as the ways of hand-overs into it bring
(`inflow`), from a root an integer quotient: `std::ceil` sees what is left of a deadline
that is shorter than the period, which is 0.

`targetsHaveWorkers_iff` says when every threadgroup that is dispatched to has a
thread.
-/
import PreemptiveExecutor.Executor.Lookups
import PreemptiveExecutor.Registry.Inflow
import PreemptiveExecutor.Registry.RootFormula

namespace PreemptiveExecutor

open Theory
open Relation (TransGen)

set_option autoImplicit false

namespace CallbackRegistry

/-- No worker group without a thread: the root formula of a Reentrant root that hands
over does not round down to 0, and 16 bits hold enough of what all ways bring to a mutex
group that hands over to a Reentrant callback. -/
structure Staffed (r : CallbackRegistry) (userChains : List UserChain) (forest : Forest) : Prop where
  roots : ∀ head o, r.owner head = .segment head → ⟨head, none⟩ ∈ forest →
    r.HandsOver forest (.segment head) o →
    ∀ period ∈ (UnorderedMap.subscript r.adjacencyList head).periods.head?,
    ∀ deadline ∈ (UnorderedMap.subscript r.adjacencyList head).deadlines.max?, period ≤ deadline
  mutexGroups : ∀ group head, r.Reached forest (.mutexGroup group) →
    r.HandsOver forest (.mutexGroup group) (.segment head) →
    r.inflow userChains forest (.mutexGroup group) % 2 ^ 16 ≠ 0

/-! ## Threads of segments -/

section Segments

variable {r : CallbackRegistry} {userChains : List UserChain} {forest : Forest} {threads : Owner → Uint16}

/-- A segment that is handed over to has the threads of the owner before it. -/
theorem Demand.segment (demand : r.Demand forest threads) (grown : r.Grown forest) {o : Owner} {head : String}
    (edge : r.HandsOver forest o (.segment head)) (reached : r.Reached forest (.segment head)) :
    threads (.segment head) = threads o := by
  have only : r.ownersBefore forest (.segment head) = [o] := by
    refine List.perm_singleton.1 ((List.perm_ext_iff_of_nodup (ownersBefore_nodup forest _)
      (List.nodup_singleton o)).2 fun o' => ?_)
    rw [mem_ownersBefore, List.mem_singleton]
    constructor
    · exact fun edge' => segment_predecessor grown.nodup edge' edge
    · rintro rfl
      exact edge
  rw [demand.sum _ reached (by rw [only, List.length_singleton]; decide), only]
  exact add_zero (threads o)

/-- The threads of a root's segment are the quotient of the root. -/
theorem Demand.root (demand : r.Demand forest threads) (grown : r.Grown forest) {head : String} {o : Owner}
    (own : r.owner head = .segment head) (isRoot : ⟨head, none⟩ ∈ forest)
    (handed : r.HandsOver forest (.segment head) o) :
    ∃ period ∈ (UnorderedMap.subscript r.adjacencyList head).periods.head?, period ≠ 0 ∧
      ∃ deadline ∈ (UnorderedMap.subscript r.adjacencyList head).deadlines.max?,
        (threads (.segment head)).val = deadline.val / period.val := by
  obtain ⟨reached, stored⟩ := (reached_segment_iff grown).2 ⟨own, isRoot, o, handed⟩
  obtain ⟨callback, first⟩ := firstCallback_some (reached.opened grown)
  obtain rfl := firstCallback_segment first
  have counted := demand.first _ _ reached stored first
  obtain ⟨deadlines, period, isPeriod, nonzero⟩ := rootNumThreads_ok counted
  obtain ⟨deadline, isDeadline⟩ := Option.ne_none_iff_exists'.1 fun h => deadlines (List.max?_eq_none_iff.1 h)
  refine ⟨period, isPeriod, nonzero, deadline, isDeadline, ?_⟩
  rw [quotient_of_rootNumThreads counted, quotient, Option.mem_def.1 isPeriod, isDeadline]

/-- **All segments have a thread exactly if the forest is `Staffed`.** -/
theorem staffed_iff (demand : r.Demand forest threads) (grown : r.Grown forest)
    (noCycle : ∀ o, r.Reached forest o → ¬ TransGen (r.HandsOver forest) o o)
    (stores : ∀ name, Stores (UnorderedMap.subscript r.adjacencyList name) (storedChains userChains name)) :
    (∀ head, r.Reached forest (.segment head) → threads (.segment head) ≠ 0) ↔ r.Staffed userChains forest := by
  constructor
  · intro nonzero
    constructor
    · intro head o own isRoot handed period isPeriod deadline isDeadline
      obtain ⟨period', isPeriod', -, deadline', isDeadline', value⟩ := demand.root grown own isRoot handed
      obtain rfl := Option.mem_unique isPeriod isPeriod'
      obtain rfl := Option.mem_unique isDeadline isDeadline'
      by_contra short
      refine nonzero head ((reached_segment_iff grown).2 ⟨own, isRoot, o, handed⟩).1 (Fin.ext ?_)
      rw [value, Nat.div_eq_of_lt (Fin.lt_def.1 (not_le.1 short))]
      rfl
    · intro group head reached handed zero
      have onward := reached.step handed
      refine nonzero head onward (Fin.ext ?_)
      rw [demand.segment grown handed onward, demand.inflow grown noCycle stores, zero]
      rfl
  · intro staffed head
    refine handover_induction grown noCycle (P := fun o => ∀ head, o = .segment head → r.Reached forest o →
      threads o ≠ 0) (fun o unreached head _ reached => absurd reached unreached) (fun o _ before head => ?_)
      (.segment head) head rfl
    rintro rfl reached
    by_cases handed : ∃ o, r.HandsOver forest o (.segment head)
    · obtain ⟨o, edge⟩ := handed
      rw [demand.segment grown edge reached]
      by_cases known : r.Reached forest o
      · cases o with
        | segment head' => exact before _ edge head' rfl known
        | mutexGroup group =>
            intro zero
            apply staffed.mutexGroups group head known edge
            rw [← demand.inflow grown noCycle stores, zero]
            rfl
      · rw [demand.other o known]
        decide
    · -- nobody hands over to it, so it is a root
      have none_ : r.ownersBefore forest (.segment head) = [] :=
        List.eq_nil_iff_forall_not_mem.2 fun o member => handed ⟨o, mem_ownersBefore.1 member⟩
      obtain ⟨own, isRoot, o, onward⟩ := (reached_segment_iff grown).1 ⟨reached, by rw [none_]; rfl⟩
      obtain ⟨period, isPeriod, nonzero, deadline, isDeadline, value⟩ := demand.root grown own isRoot onward
      have long := staffed.roots head o own isRoot onward period isPeriod deadline isDeadline
      intro zero
      have positive : 0 < deadline.val / period.val :=
        Nat.div_pos (Fin.le_def.1 long) (Nat.pos_of_ne_zero fun h => nonzero (Fin.ext h))
      rw [← value, zero] at positive
      exact absurd positive (by decide)

end Segments

end CallbackRegistry

namespace ExecutorState

/-- Every threadgroup of the handle map has a worker group with a thread. -/
def TargetsHaveWorkers (timing : TimingExport) (e : ExecutorState) : Prop :=
  ∀ ptr id, timing.callbackHandleToThreadgroupId.lookup ptr = some id →
    ∃ workers, e.threadGroupIdWorkerMap.lookup id = some workers ∧ workers.threads ≠ []

theorem spawnWorkerGroup_threads (threadGroup : ThreadGroupAttributes) :
    (spawnWorkerGroup threadGroup).threads ≠ [] ↔
      threadGroup.isMutexGroup = true ∨ threadGroup.numberOfThreads ≠ 0 := by
  rw [spawnWorkerGroup_eq]
  unfold WorkerGroup.spawn
  cases threadGroup.isMutexGroup with
  | true => simp
  | false => simp

/-- **Every threadgroup that is dispatched to has a thread exactly if the forest of
the callback graph is `Staffed`.** -/
theorem targetsHaveWorkers_iff {preRegistered : PreRegisteredNames}
    {weakGroupsToNodes : WeakCallbackGroupsToNodesMap} {userChains : List UserChain} {r r' : CallbackRegistry}
    {order : IterationOrder} {stack : Nat} {timing : TimingExport} {base : BaseExecutor}
    {e e' : ExecutorState} (constructed : CallbackRegistry.construct preRegistered weakGroupsToNodes userChains = .ok r)
    (returned : r.callbackThreadgroupAllocation order stack = .ok (timing, r'))
    (loaded : e.threadGroups = some timing.threadgroupAttributes) (first : e.threadGroupIdWorkerMap = ∅)
    (spawned : e.spawnWorkerGroups base = .ok e') :
    e'.TargetsHaveWorkers timing ↔
      ∀ forest, (r.arrange order).adjacencyList.DepthFirstForest forest →
        (r.arrange order).Staffed userChains forest := by
  obtain ⟨forest, threads, idOf, isForest, grown, demand, noCycle, allocation⟩ :=
    CallbackRegistry.allocation_by_owner (CallbackRegistry.construct_fresh constructed order) returned
  obtain ⟨final, from_, exports, -⟩ := CallbackRegistry.callbackThreadgroupAllocation_exports
    (CallbackRegistry.construct_sound constructed) returned
  have workers := (spawnWorkerGroups_ok spawned loaded first (exports.tgId from_.sound)).2.2.2
  -- the worker group of an owner
  have staffed : ∀ o, (r.arrange order).Opened forest o →
      ((∃ workers, e'.threadGroupIdWorkerMap.lookup (idOf o) = some workers ∧ workers.threads ≠ []) ↔
        o.isMutex = true ∨ threads o ≠ 0) := by
    intro o opened
    obtain ⟨attributes, found, isMutex, numberOfThreads⟩ := allocation.attributes o opened
    rw [workers, found, Option.map_some, ← isMutex, Ne, Fin.ext_iff, ← numberOfThreads]
    simp only [Option.some.injEq, exists_eq_left']
    exact spawnWorkerGroup_threads attributes
  have all : e'.TargetsHaveWorkers timing ↔
      ∀ head, (r.arrange order).Reached forest (.segment head) → threads (.segment head) ≠ 0 := by
    constructor
    · intro targets head reached
      have opened := reached.opened grown
      obtain ⟨call, member, opens, own⟩ := opened
      obtain ⟨info, found⟩ := UnorderedMap.mem_iff_lookup.1
        (allocation.registered _ (List.mem_map_of_mem member))
      have handle := (allocation.handles info.entity.rawPointer (idOf (.segment head))).2
        ⟨_, info, found, rfl, by rw [CallbackRegistry.joins_of_mem grown.nodup member opens, own]⟩
      exact ((staffed _ (reached.opened grown)).1 (targets _ _ handle)).resolve_left Bool.false_ne_true
    · intro nonzero ptr id found
      obtain ⟨name, info, registered, -, rfl⟩ := (allocation.handles ptr id).1 found
      have opened := grown.joined (allocation.visited name (UnorderedMap.mem_iff_lookup.2 ⟨info, registered⟩))
      refine (staffed _ opened).2 ?_
      cases joined : (r.arrange order).joins forest name with
      | mutexGroup group => exact Or.inl rfl
      | segment head =>
          right
          by_cases reached : (r.arrange order).Reached forest (.segment head)
          · exact nonzero head reached
          · rw [demand.other _ reached]
            decide
  rw [all, CallbackRegistry.staffed_iff demand grown noCycle fun name =>
    CallbackRegistry.stores_arranged (CallbackRegistry.construct_stores constructed name) order, isForest.forall_iff]

/-! ### A deadline that is shorter than the period -/

/-- An executor that has loaded the timing of the registry, with one callback group
that is not real-time. -/
def timed (timing : TimingExport) : ExecutorState :=
  { userChains := [], pendingWeakGroupsToNodes := []
    nonRtCallbackGroups := [(CallbackRegistry.subscriptionGroup 2 .reentrant [20], 100)]
    callbackHandleToThreadgroupId := some timing.callbackHandleToThreadgroupId
    threadGroups := some timing.threadgroupAttributes }

open CallbackRegistry in
/-- **A quotient that rounds down to 0 leaves `camera` without a thread.** -/
theorem targetsHaveWorkers_shortDeadline :
    ∃ after r timing r' e', (ChainYamlParser.fresh (cameraDocument "20")).parse cameraConversions =
        (.ok true, after) ∧ after.Lists (nearFarChains 20) ∧
      (∀ chain ∈ nearFarChains 20, chain.deadline ≠ 0 ∧ chain.period ≠ 0) ∧
      construct nearFarNames nearFarGroups (nearFarChains 20) = .ok r ∧
      r.callbackThreadgroupAllocation .stored 4 = .ok (timing, r') ∧
      (timed timing).spawnWorkerGroups .accepting = .ok e' ∧ ¬ e'.TargetsHaveWorkers timing := by
  obtain ⟨after, accepted, lists⟩ := acceptedChains_lists
    (by decide : acceptedChains cameraConversions (cameraDocument "20") = some (nearFarChains 20))
  obtain ⟨r, constructed, runs⟩ := Loop.exists_ok_of_any
    (x := construct nearFarNames nearFarGroups (nearFarChains 20))
    (p := fun r => (r.callbackThreadgroupAllocation .stored 4).toOption.any fun result =>
      result.1.callbackHandleToThreadgroupId.lookup 10 = some 1 ∧
        ((timed result.1).spawnWorkerGroups .accepting).toOption.any fun e' =>
          (e'.threadGroupIdWorkerMap.lookup 1).all fun workers => workers.threads.isEmpty) (by decide)
  obtain ⟨⟨timing, r'⟩, returned, runs⟩ := Loop.exists_ok_of_any runs
  obtain ⟨handle, runs⟩ := of_decide_eq_true runs
  obtain ⟨e', spawned, nobody⟩ := Loop.exists_ok_of_any runs
  refine ⟨after, r, timing, r', e', accepted, lists, by decide, constructed, returned, spawned, fun targets => ?_⟩
  obtain ⟨workers, found, some_⟩ := targets 10 1 handle
  rw [found] at nobody
  exact some_ (List.isEmpty_iff.1 nobody)

open CallbackRegistry in
/-- With a period of 5 all have threads. -/
theorem targetsHaveWorkers_sample :
    ∃ r timing r' e', construct nearFarNames nearFarGroups (nearFarChains 5) = .ok r ∧
      r.callbackThreadgroupAllocation .stored 4 = .ok (timing, r') ∧
      (timed timing).spawnWorkerGroups .accepting = .ok e' ∧ e'.TargetsHaveWorkers timing := by
  obtain ⟨r, constructed, runs⟩ := Loop.exists_ok_of_any
    (x := construct nearFarNames nearFarGroups (nearFarChains 5))
    (p := fun r => (r.callbackThreadgroupAllocation .stored 4).toOption.any fun result =>
      ((timed result.1).spawnWorkerGroups .accepting).toOption.any fun _ => true) (by decide)
  obtain ⟨⟨timing, r'⟩, returned, runs⟩ := Loop.exists_ok_of_any runs
  obtain ⟨e', spawned, -⟩ := Loop.exists_ok_of_any runs
  refine ⟨r, timing, r', e', constructed, returned, spawned,
    (targetsHaveWorkers_iff constructed returned rfl rfl spawned).2 fun forest isForest => ?_⟩
  have graph := nearFar_forest constructed isForest
  constructor
  · intro head o own isRoot handed period isPeriod deadline isDeadline
    obtain ⟨-, periods, deadlines⟩ := graph _ isRoot
    obtain rfl := Option.mem_unique isPeriod periods
    obtain rfl := Option.mem_unique isDeadline deadlines
    decide
  · intro group head reached
    exact absurd reached (not_reached_mutexGroup fun call member => (graph call member).1)

end ExecutorState

end PreemptiveExecutor
