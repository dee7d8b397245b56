/-
# Executor.MutualExclusion — callbacks of one mutex group never overlap

The executor after start-up as a transition system: one dispatcher, which runs
`populate_ready_queues` again and again on whatever is ready, and the worker
groups of the worker map, with the steps of all parties interleaved
(`ExecutorState.system`).  A step on one worker group is a step of that group's
own system, so each group is in a state its own system reaches (`SystemInv`).

Mutual exclusion combines three facts: callbacks of one mutex group carry one
threadgroup id, that id has one worker group with one thread, and a bundle is
only ever enqueued to the worker group of its callback's id.
-/
import PreemptiveExecutor.Workers.Conservation
import PreemptiveExecutor.Executor.Lookups

namespace PreemptiveExecutor

open Theory

set_option autoImplicit false

/-! ## The running executor -/

/-- Where the dispatcher is: between two calls, at the head of the dispatch loop,
inside the batch of a threadgroup, or out of `spin` by an exception. -/
inductive Cycle where
  | idle
  | dispatching (pending : List (Nat × List BundledExecutable))
  | handing (tgid : Nat) (rest : List (Nat × List BundledExecutable))
  | threw (error : Error)
  deriving DecidableEq

structure RunningExecutor where
  groups : Nat → Option (WorkerGroup BundledExecutable)
  cycle : Cycle := .idle

inductive SystemLabel where
  | populate (ready : ReadyHandles) (choices : DispatchChoices)
  | nextBatch (enqueueOk : Bool)
  | fetchAdd
  | updatePrio
  | release
  | worker (tgid i : Nat) (action : WorkerGroup.WorkerAction)
  | setOk (ok : Bool)
  | setSpinning (spinning : Bool)
  | destroy (tgid : Nat)

namespace RunningExecutor

/-- A step of one worker group. -/
def stepGroup (s : RunningExecutor) (tgid : Nat) (label : WorkerGroup.Label BundledExecutable) : Option RunningExecutor :=
  (s.groups tgid).bind fun g =>
    (g.step label).map fun g' => { s with groups := Function.update s.groups tgid (some g') }

/-- A step that every worker group sees, as far as it still can. -/
def stepAll (s : RunningExecutor) (label : WorkerGroup.Label BundledExecutable) : RunningExecutor :=
  { s with groups := fun tgid => (s.groups tgid).map fun g => (g.step label).getD g }

end RunningExecutor

namespace ExecutorState

/-- The executor when its loop starts. -/
def running (e : ExecutorState) : RunningExecutor := { groups := e.threadGroupIdWorkerMap.lookup }

/-- One step of the dispatcher, of a worker, or of the outside world. -/
def systemStep (e : ExecutorState) (s : RunningExecutor) : SystemLabel → Option RunningExecutor
  | .populate ready choices =>
      match s.cycle with
      | .idle =>
          if e.threadGroupIdWorkerMap.keys.isEmpty then some s
          else
            match collectBundles e.callbackHandleToThreadgroupId ready with
            | .error error => some { s with cycle := .threw error }
            | .ok collected =>
                let batches := (choices.order collected.bundlesByTgid).entries.map
                  fun pair => (pair.1, pair.2)
                some { s with cycle := .dispatching batches }
      | _ => none
  | .nextBatch enqueueOk =>
      match s.cycle with
      | .dispatching [] => some { s with cycle := .idle }
      | .dispatching ((tgid, bundles) :: rest) =>
          if bundles.isEmpty then some { s with cycle := .dispatching rest }
          else if (s.groups tgid).isNone then some { s with cycle := .threw (unknownThreadGroup tgid) }
          else if !enqueueOk then some { s with cycle := .threw (enqueueFailed tgid) }
          else (s.stepGroup tgid (.enqueueBulk bundles)).map fun s => { s with cycle := .handing tgid rest }
      | _ => none
  | .fetchAdd =>
      match s.cycle with
      | .handing tgid _ => s.stepGroup tgid .fetchAdd
      | _ => none
  | .updatePrio =>
      match s.cycle with
      | .handing tgid _ =>
          (s.stepGroup tgid .dispatcherUpdatePrio).map fun s =>
            match (s.groups tgid).map WorkerGroup.dispatcher with
            | some (.threw what) => { s with cycle := .threw (.runtimeError what) }
            | _ => s
      | _ => none
  | .release =>
      match s.cycle with
      | .handing tgid rest =>
          (s.stepGroup tgid .release).map fun s => { s with cycle := .dispatching rest }
      | _ => none
  | .worker tgid i action => s.stepGroup tgid (.worker i action)
  | .setOk ok => some (s.stepAll (.setOk ok))
  | .setSpinning spinning => some (s.stepAll (.setSpinning spinning))
  | .destroy tgid =>
      match s.cycle with
      | .idle => s.stepGroup tgid .destroy
      | .threw _ => s.stepGroup tgid .destroy
      | _ => none

def system (e : ExecutorState) : Transition RunningExecutor SystemLabel where
  Init s := s = e.running
  step := e.systemStep

end ExecutorState

/-! ## What a step can do -/

/-- The batches the dispatcher has collected and not handed over. -/
def Cycle.pending : Cycle → List (Nat × List BundledExecutable)
  | .dispatching pending => pending
  | .handing _ rest => rest
  | _ => []

/-- Everything a step can do: collect what is ready, hand a batch over, or move one
worker group or all of them without a batch.  What is collected and not handed over
can get less, and more only by collecting. -/
inductive SystemStep (e : ExecutorState) (s : RunningExecutor) : SystemLabel → RunningExecutor → Prop where
  | nobody {ready : ReadyHandles} {choices : DispatchChoices} (idle : s.cycle = .idle)
      (nobody : e.threadGroupIdWorkerMap.keys.isEmpty = true) : SystemStep e s (.populate ready choices) s
  | threw {ready : ReadyHandles} {choices : DispatchChoices} {error : Error} (idle : s.cycle = .idle)
      (somebody : e.threadGroupIdWorkerMap.keys.isEmpty = false)
      (collects : collectBundles e.callbackHandleToThreadgroupId ready = .error error) :
      SystemStep e s (.populate ready choices) { s with cycle := .threw error }
  | collected {ready : ReadyHandles} {choices : DispatchChoices} {c : Collected} (idle : s.cycle = .idle)
      (somebody : e.threadGroupIdWorkerMap.keys.isEmpty = false)
      (collects : collectBundles e.callbackHandleToThreadgroupId ready = .ok c) :
      SystemStep e s (.populate ready choices) { s with
        cycle := .dispatching ((choices.order c.bundlesByTgid).entries.map fun pair => (pair.1, pair.2)) }
  | passed {enqueueOk : Bool} {cycle : Cycle} (pending : cycle.pending <:+ s.cycle.pending) :
      SystemStep e s (.nextBatch enqueueOk) { s with cycle }
  | handed {enqueueOk : Bool} {tgid : Nat} {bundles : List BundledExecutable}
      {rest : List (Nat × List BundledExecutable)} {s₁ : RunningExecutor}
      (at_ : s.cycle = .dispatching ((tgid, bundles) :: rest))
      (moved : s.stepGroup tgid (.enqueueBulk bundles) = some s₁) :
      SystemStep e s (.nextBatch enqueueOk) { s₁ with cycle := .handing tgid rest }
  | moved {label : SystemLabel} {tgid : Nat} {groupLabel : WorkerGroup.Label BundledExecutable}
      {s₁ : RunningExecutor} {cycle : Cycle} (elsewhere : ∀ ready choices, label ≠ .populate ready choices)
      (quiet : ∀ bundles, groupLabel ≠ .enqueueBulk bundles) (moved : s.stepGroup tgid groupLabel = some s₁)
      (pending : cycle.pending <:+ s.cycle.pending) : SystemStep e s label { s₁ with cycle }
  | all {label : SystemLabel} {groupLabel : WorkerGroup.Label BundledExecutable}
      (elsewhere : ∀ ready choices, label ≠ .populate ready choices)
      (quiet : ∀ bundles, groupLabel ≠ .enqueueBulk bundles) : SystemStep e s label (s.stepAll groupLabel)

theorem stepGroup_cases {s s' : RunningExecutor} {tgid : Nat} {label : WorkerGroup.Label BundledExecutable}
    (moved : s.stepGroup tgid label = some s') :
    ∃ g g', s.groups tgid = some g ∧ g.step label = some g' ∧
      s' = { s with groups := Function.update s.groups tgid (some g') } := by
  obtain ⟨g, at_, moved⟩ := Option.bind_eq_some_iff.1 moved
  obtain ⟨g', stepped, rfl⟩ := Option.map_eq_some_iff.1 moved
  exact ⟨g, g', at_, stepped, rfl⟩

theorem SystemStep.stays {e : ExecutorState} {s s' : RunningExecutor} {label : SystemLabel} {tgid : Nat}
    {groupLabel : WorkerGroup.Label BundledExecutable} (elsewhere : ∀ ready choices, label ≠ .populate ready choices)
    (quiet : ∀ bundles, groupLabel ≠ .enqueueBulk bundles) (moved : s.stepGroup tgid groupLabel = some s') :
    SystemStep e s label s' := by
  show SystemStep e s label { s' with cycle := s'.cycle }
  apply SystemStep.moved elsewhere quiet moved
  obtain ⟨g, g', -, -, rfl⟩ := stepGroup_cases moved
  exact List.suffix_refl _

theorem systemStep_cases {e : ExecutorState} {s s' : RunningExecutor} {label : SystemLabel}
    (stepped : e.systemStep s label = some s') : SystemStep e s label s' := by
  cases label with
  | populate ready choices =>
      simp only [ExecutorState.systemStep] at stepped
      split at stepped
      · rename_i idle
        split at stepped
        · cases stepped; exact .nobody idle ‹_›
        · rename_i somebody
          have somebody := Bool.eq_false_iff.2 somebody
          split at stepped
          · cases stepped; exact .threw idle somebody ‹_›
          · cases stepped; exact .collected idle somebody ‹_›
      · cases stepped
  | nextBatch enqueueOk =>
      simp only [ExecutorState.systemStep] at stepped
      split at stepped
      · cases stepped; exact .passed List.nil_suffix
      · rename_i tgid bundles rest at_
        split at stepped
        · cases stepped
          refine .passed ?_
          rw [at_]
          exact List.suffix_cons _ _
        · split at stepped
          · cases stepped; exact .passed List.nil_suffix
          · split at stepped
            · cases stepped; exact .passed List.nil_suffix
            · obtain ⟨s₁, moved, rfl⟩ := Option.map_eq_some_iff.1 stepped
              exact .handed at_ moved
      · cases stepped
  | fetchAdd =>
      simp only [ExecutorState.systemStep] at stepped
      split at stepped
      · exact .stays (by rintro _ _ ⟨⟩) (by rintro _ ⟨⟩) stepped
      · cases stepped
  | updatePrio =>
      simp only [ExecutorState.systemStep] at stepped
      split at stepped
      · obtain ⟨s₁, moved, rfl⟩ := Option.map_eq_some_iff.1 stepped
        split
        · exact .moved (by rintro _ _ ⟨⟩) (by rintro _ ⟨⟩) moved List.nil_suffix
        · exact .stays (by rintro _ _ ⟨⟩) (by rintro _ ⟨⟩) moved
      · cases stepped
  | release =>
      simp only [ExecutorState.systemStep] at stepped
      split at stepped
      · rename_i tgid rest at_
        obtain ⟨s₁, moved, rfl⟩ := Option.map_eq_some_iff.1 stepped
        refine .moved (by rintro _ _ ⟨⟩) (by rintro _ ⟨⟩) moved ?_
        rw [at_]
        exact List.suffix_refl _
      · cases stepped
  | worker tgid i action => exact .stays (by rintro _ _ ⟨⟩) (by rintro _ ⟨⟩) stepped
  | setOk ok => cases stepped; exact .all (by rintro _ _ ⟨⟩) (by rintro _ ⟨⟩)
  | setSpinning spinning => cases stepped; exact .all (by rintro _ _ ⟨⟩) (by rintro _ ⟨⟩)
  | destroy tgid =>
      simp only [ExecutorState.systemStep] at stepped
      split at stepped
      · exact .stays (by rintro _ _ ⟨⟩) (by rintro _ ⟨⟩) stepped
      · exact .stays (by rintro _ _ ⟨⟩) (by rintro _ ⟨⟩) stepped
      · cases stepped

/-! ## What holds in every state -/

/-- A worker group is in a state that its own system reaches from the group in
the worker map, and has been handed bundles of its threadgroup only. -/
structure GroupInv (e : ExecutorState) (handles : UnorderedMap Ptr Nat) (tgid : Nat)
    (g : WorkerGroup BundledExecutable) : Prop where
  reached : ∃ isMutexGroup priority numberOfThreads,
    e.threadGroupIdWorkerMap.lookup tgid = some (.spawn isMutexGroup priority numberOfThreads) ∧
      (WorkerGroup.system BundledExecutable isMutexGroup priority numberOfThreads).Reachable g
  enqueued : ∀ bundle ∈ g.enqueued, handles.lookup bundle.getRawHandle = some tgid

structure SystemInv (e : ExecutorState) (handles : UnorderedMap Ptr Nat) (s : RunningExecutor) : Prop where
  groups : ∀ tgid g, s.groups tgid = some g → GroupInv e handles tgid g
  pending : ∀ batch ∈ s.cycle.pending, ∀ bundle ∈ batch.2,
    handles.lookup bundle.getRawHandle = some batch.1

section Invariant

variable {e : ExecutorState} {handles : UnorderedMap Ptr Nat}

/-- The bundles a group step adds are those of the batch it is handed. -/
theorem GroupInv.step {tgid : Nat} {g g' : WorkerGroup BundledExecutable}
    {label : WorkerGroup.Label BundledExecutable} (inv : GroupInv e handles tgid g)
    (batch : ∀ bundles, label = .enqueueBulk bundles → ∀ bundle ∈ bundles,
      handles.lookup bundle.getRawHandle = some tgid)
    (stepped : g.step label = some g') : GroupInv e handles tgid g' := by
  obtain ⟨isMutexGroup, priority, numberOfThreads, spawned, reachable⟩ := inv.reached
  refine ⟨⟨isMutexGroup, priority, numberOfThreads, spawned, .step reachable trivial stepped⟩, ?_⟩
  rw [WorkerGroup.step_enqueued stepped]
  intro bundle member
  rcases List.mem_append.1 member with old | new
  · exact inv.enqueued bundle old
  · cases label with
    | enqueueBulk bundles => exact batch bundles rfl bundle new
    | _ => cases new

theorem SystemInv.stepGroup {s s' : RunningExecutor} {tgid : Nat} {label : WorkerGroup.Label BundledExecutable}
    (inv : SystemInv e handles s)
    (batch : ∀ bundles, label = .enqueueBulk bundles → ∀ bundle ∈ bundles,
      handles.lookup bundle.getRawHandle = some tgid)
    (stepped : s.stepGroup tgid label = some s') :
    SystemInv e handles s' ∧ s'.cycle = s.cycle := by
  obtain ⟨g, g', at_, stepped', rfl⟩ := stepGroup_cases stepped
  refine ⟨⟨fun tgid' g₁ found => ?_, inv.pending⟩, rfl⟩
  change Function.update s.groups tgid (some g') tgid' = some g₁ at found
  by_cases same : tgid' = tgid
  · subst same
    rw [Function.update_self] at found
    cases found
    exact (inv.groups tgid' g at_).step batch stepped'
  · rw [Function.update_of_ne same] at found
    exact inv.groups tgid' g₁ found

theorem SystemInv.withCycle {s : RunningExecutor} (inv : SystemInv e handles s) {cycle : Cycle}
    (pending : ∀ batch ∈ cycle.pending, ∀ bundle ∈ batch.2,
      handles.lookup bundle.getRawHandle = some batch.1) :
    SystemInv e handles { s with cycle } :=
  ⟨inv.groups, pending⟩

theorem SystemInv.stepAll {s : RunningExecutor} {label : WorkerGroup.Label BundledExecutable}
    (inv : SystemInv e handles s) (noBatch : ∀ bundles, label ≠ .enqueueBulk bundles) :
    SystemInv e handles (s.stepAll label) := by
  refine ⟨fun tgid g' found => ?_, inv.pending⟩
  obtain ⟨g, at_, rfl⟩ := Option.map_eq_some_iff.1 found
  have here := inv.groups tgid g at_
  cases stepped : g.step label with
  | none => exact here
  | some g' => exact here.step (fun bundles h => absurd h (noBatch bundles)) stepped

theorem SystemInv.step (loaded : e.callbackHandleToThreadgroupId = some handles) {s s' : RunningExecutor}
    {label : SystemLabel} (inv : SystemInv e handles s) (stepped : e.systemStep s label = some s') :
    SystemInv e handles s' := by
  cases systemStep_cases stepped with
  | nobody => exact inv
  | threw => exact inv.withCycle fun _ member => by cases member
  | @collected ready choices c idle somebody ran =>
      rw [loaded] at ran
      refine inv.withCycle fun batch member bundle inBatch => ?_
      obtain ⟨pair, inMap, rfl⟩ := List.mem_map.1 member
      obtain ⟨bundles, found, same⟩ := (choices.order_same c.bundlesByTgid).lookup_left
        (UnorderedMap.mem_entries_iff.1 inMap)
      rw [← same] at inBatch
      exact (collectBundles_sorted ran pair.1 bundles found).2 bundle inBatch
  | passed pending => exact inv.withCycle fun batch member => inv.pending batch (pending.subset member)
  | handed at_ moved =>
      have pending := inv.pending
      rw [at_] at pending
      obtain ⟨here, later⟩ := List.forall_mem_cons.1 pending
      exact (inv.stepGroup (fun bundles' same => by cases same; exact here) moved).1.withCycle later
  | moved elsewhere quiet moved pending =>
      have inv₁ := (inv.stepGroup (fun bundles same => absurd same (quiet bundles)) moved).1
      exact inv₁.withCycle fun batch member => inv.pending batch (pending.subset member)
  | all elsewhere quiet => exact inv.stepAll quiet

theorem systemInv_running {final : CallbackRegistry} {timing : TimingExport}
    (started : ExecutorState.Started e final timing) (handles : UnorderedMap Ptr Nat) :
    SystemInv e handles e.running := by
  refine ⟨fun tgid g found => ?_, nofun⟩
  have spawned : e.threadGroupIdWorkerMap.lookup tgid = some g := found
  change e.threadGroupIdWorkerMap.lookup tgid = some g at found
  rw [started.workers] at found
  obtain ⟨threadGroup, -, rfl⟩ := Option.map_eq_some_iff.1 found
  rw [ExecutorState.spawnWorkerGroup_eq] at spawned ⊢
  exact ⟨⟨_, _, _, spawned, .init rfl⟩, fun _ member => nomatch member⟩

theorem systemInv_reachable {final : CallbackRegistry} {timing : TimingExport}
    (started : ExecutorState.Started e final timing) {s : RunningExecutor}
    (reachable : e.system.Reachable s) : SystemInv e timing.callbackHandleToThreadgroupId s :=
  Transition.invariant (SystemInv e timing.callbackHandleToThreadgroupId)
    (fun _ start => by rw [start]; exact systemInv_running started _)
    (fun _ _ _ inv _ stepped => inv.step started.handles stepped) reachable

theorem SystemInv.mem_workers {s : RunningExecutor} (inv : SystemInv e handles s) {tgid : Nat}
    {g : WorkerGroup BundledExecutable} (at_ : s.groups tgid = some g) : tgid ∈ e.threadGroupIdWorkerMap := by
  obtain ⟨_, _, _, spawned, -⟩ := (inv.groups tgid g at_).reached
  exact UnorderedMap.mem_iff_lookup.2 ⟨_, spawned⟩

/-- A bundle a thread holds was handed to its worker group, so its callback has
that group's threadgroup id. -/
theorem SystemInv.holding {s : RunningExecutor} (inv : SystemInv e handles s) {tgid i : Nat}
    {g : WorkerGroup BundledExecutable} {w : Worker BundledExecutable} {bundle : BundledExecutable}
    (group : s.groups tgid = some g) (thread : g.threads[i]? = some w) (holds : w.holding = some bundle) :
    handles.lookup bundle.getRawHandle = some tgid := by
  have here := inv.groups tgid g group
  obtain ⟨isMutexGroup, priority, numberOfThreads, -, reachable⟩ := here.reached
  have conserved := (WorkerGroup.conserved_reachable reachable).bundles
  apply here.enqueued bundle
  have held : bundle ∈ g.beingRun := List.mem_filterMap.2 ⟨w, List.mem_of_getElem? thread, holds⟩
  rw [← Multiset.mem_coe, conserved, Multiset.mem_add, Multiset.mem_add]
  exact Or.inl (Or.inr (Multiset.mem_coe.2 held))

/-- A worker group keeps the number of threads it was spawned with. -/
theorem SystemInv.numberOfThreads {s : RunningExecutor} (inv : SystemInv e handles s) {tgid : Nat}
    {g spawned : WorkerGroup BundledExecutable} (group : s.groups tgid = some g)
    (at_ : e.threadGroupIdWorkerMap.lookup tgid = some spawned) :
    g.threads.length = spawned.threads.length := by
  obtain ⟨isMutexGroup, priority, numberOfThreads, same, reachable⟩ := (inv.groups tgid g group).reached
  rw [WorkerGroup.threads_length_reachable reachable]
  rw [at_] at same
  cases same
  rw [WorkerGroup.spawn, List.length_replicate]

end Invariant

/-! ## Callbacks and their groups -/

/-- `group` is a group of the map that has the entity. -/
def Lists (weakGroupsToNodes : WeakCallbackGroupsToNodesMap) (ptr : Ptr) (group : CallbackGroup) : Prop :=
  ∃ entry ∈ weakGroupsToNodes, entry.group = some group ∧
    ∃ entity ∈ group.collectAllPtrs, entity.rawPointer = ptr

/-- `group` is the callback group of the entity: it has it, and no other does. -/
def GroupOf (weakGroupsToNodes : WeakCallbackGroupsToNodesMap) (ptr : Ptr) (group : CallbackGroup) : Prop :=
  Lists weakGroupsToNodes ptr group ∧
    ∀ group', Lists weakGroupsToNodes ptr group' → group' = group

/-- Two callbacks of one mutex group; groups are told apart by their addresses. -/
def SameMutexGroup (weakGroupsToNodes : WeakCallbackGroupsToNodesMap) (ptr ptr' : Ptr) : Prop :=
  ∃ group group', GroupOf weakGroupsToNodes ptr group ∧ GroupOf weakGroupsToNodes ptr' group' ∧
    group.type = .mutuallyExclusive ∧ group'.type = .mutuallyExclusive ∧ group.ptr = group'.ptr

/-- Thread `i` of a worker group has taken the bundle and not finished it. -/
def RunningExecutor.Runs (s : RunningExecutor) (tgid i : Nat) (bundle : BundledExecutable) : Prop :=
  ∃ g w, s.groups tgid = some g ∧ g.threads[i]? = some w ∧ w.holding = some bundle

section Groups

variable {e : ExecutorState} {final : CallbackRegistry} {timing : TimingExport}
  {preRegistered : PreRegisteredNames} {weakGroupsToNodes : WeakCallbackGroupsToNodesMap}

/-- A callback of a mutex group is assigned the threadgroup of that group. -/
theorem mutexThreadgroup_of_handle (started : ExecutorState.Started e final timing)
    (scanned : final.Scanned preRegistered weakGroupsToNodes) {ptr : Ptr} {id : Nat} {group : CallbackGroup}
    (assigned : timing.callbackHandleToThreadgroupId.lookup ptr = some id)
    (groupOf : GroupOf weakGroupsToNodes ptr group) (mutex : group.type = .mutuallyExclusive) :
    final.mutexThreadgroupMap.lookup group.ptr = some id := by
  obtain ⟨name, info, inMap, same, rfl⟩ := (started.exports.handles ptr id).1 assigned
  obtain ⟨-, -, entry, listed, isGroup, member⟩ := scanned name info inMap
  have own : info.callbackGroup = group :=
    groupOf.2 _ ⟨entry, listed, isGroup, info.entity, member, same⟩
  have isMutex : info.isMutex = true := by rw [CallbackInfo.isMutex, own, mutex]; rfl
  rw [← own]
  exact started.sound.mutexAssigned name info inMap isMutex (started.exports.assigned name info inMap)

/-- Two mutex callbacks have one threadgroup id if and only if they have one group. -/
theorem sameThreadgroup_iff_sameGroup (started : ExecutorState.Started e final timing)
    (scanned : final.Scanned preRegistered weakGroupsToNodes) {ptr ptr' : Ptr} {id id' : Nat}
    {group group' : CallbackGroup}
    (assigned : timing.callbackHandleToThreadgroupId.lookup ptr = some id)
    (assigned' : timing.callbackHandleToThreadgroupId.lookup ptr' = some id')
    (groupOf : GroupOf weakGroupsToNodes ptr group) (groupOf' : GroupOf weakGroupsToNodes ptr' group')
    (mutex : group.type = .mutuallyExclusive) (mutex' : group'.type = .mutuallyExclusive) :
    id = id' ↔ group.ptr = group'.ptr := by
  have own := mutexThreadgroup_of_handle started scanned assigned groupOf mutex
  have own' := mutexThreadgroup_of_handle started scanned assigned' groupOf' mutex'
  constructor
  · rintro rfl
    exact started.sound.mutexInjective _ _ _ own own'
  · intro same
    rw [same, own'] at own
    exact (Option.some.inj own).symm

/-- The threadgroup of a mutex group is exported as one, and has one thread. -/
theorem mutexThreadgroup_spawned (started : ExecutorState.Started e final timing) {ptr : Ptr} {id : Nat}
    (own : final.mutexThreadgroupMap.lookup ptr = some id) :
    ∃ threadGroup, timing.threadgroupAttributes.lookup id = some threadGroup ∧
      threadGroup.isMutexGroup = true ∧
      e.threadGroupIdWorkerMap.lookup id = some (.spawnMutexGroup threadGroup.priority) := by
  obtain ⟨record, atId, mutex⟩ := started.sound.mutexRecord _ _ own
  refine ⟨CallbackRegistry.attributesOf record, ?_, mutex, ?_⟩
  · rw [started.exports.attributes, atId]
    rfl
  · rw [started.workers, started.exports.attributes, atId]
    simp [ExecutorState.spawnWorkerGroup, CallbackRegistry.attributesOf, mutex]

end Groups

/-- **Mutual exclusion, end to end.**  After a start-up that returned: assigned
callbacks of mutex groups have one threadgroup id if and only if they have one
group; that id is exported as a mutex group and has a worker group with one
thread; and in every state of every run, two threads that have taken a bundle
and not finished it do not have callbacks of one mutex group. -/
theorem mutual_exclusion {env : Environment} {singleton : Option CallbackRegistry}
    {userChains : List UserChain} {pending weakGroupsToNodes : WeakCallbackGroupsToNodesMap}
    {e : ExecutorState} {registry' : CallbackRegistry}
    (process : ExecutorState.Singleton env singleton pending weakGroupsToNodes)
    (started : (ExecutorState.create userChains pending).startup env singleton = .ok (e, registry')) :
    ∃ handles threadGroups, e.callbackHandleToThreadgroupId = some handles ∧
      e.threadGroups = some threadGroups ∧
      (∀ ptr ptr' id id' group group', handles.lookup ptr = some id → handles.lookup ptr' = some id' →
        GroupOf weakGroupsToNodes ptr group → GroupOf weakGroupsToNodes ptr' group' →
        group.type = .mutuallyExclusive → group'.type = .mutuallyExclusive →
        (id = id' ↔ group.ptr = group'.ptr)) ∧
      (∀ ptr id group, handles.lookup ptr = some id → GroupOf weakGroupsToNodes ptr group →
        group.type = .mutuallyExclusive →
        ∃ threadGroup worker, threadGroups.lookup id = some threadGroup ∧ threadGroup.isMutexGroup = true ∧
          e.threadGroupIdWorkerMap.lookup id = some worker ∧
          worker = .spawnMutexGroup threadGroup.priority ∧ worker.threads.length = 1) ∧
      ∀ s, e.system.Reachable s → ∀ tgid tgid' i i' bundle bundle',
        s.Runs tgid i bundle → s.Runs tgid' i' bundle' → (tgid, i) ≠ (tgid', i') →
        ¬ SameMutexGroup weakGroupsToNodes bundle.getRawHandle bundle'.getRawHandle := by
  obtain ⟨preRegistered, final, timing, inStep, scanned⟩ := ExecutorState.startup_started process started
  refine ⟨_, _, inStep.handles, inStep.threadGroups, ?_, ?_, ?_⟩
  · intro ptr ptr' id id' group group' assigned assigned' groupOf groupOf' mutex mutex'
    exact sameThreadgroup_iff_sameGroup inStep scanned assigned assigned' groupOf groupOf' mutex mutex'
  · intro ptr id group assigned groupOf mutex
    obtain ⟨threadGroup, exported, isMutex, worker⟩ := mutexThreadgroup_spawned inStep
      (mutexThreadgroup_of_handle inStep scanned assigned groupOf mutex)
    exact ⟨threadGroup, _, exported, isMutex, worker, rfl, rfl⟩
  · rintro s reachable tgid tgid' i i' bundle bundle' ⟨g, w, at_, thread, holds⟩
      ⟨g', w', at_', thread', holds'⟩ apart ⟨group, group', groupOf, groupOf', mutex, mutex', same⟩
    have inv := systemInv_reachable inStep reachable
    have assigned := inv.holding at_ thread holds
    have assigned' := inv.holding at_' thread' holds'
    -- one group, hence one worker group, which has one thread
    obtain rfl := (sameThreadgroup_iff_sameGroup inStep scanned assigned assigned' groupOf groupOf' mutex
      mutex').2 same
    obtain ⟨threadGroup, -, -, worker⟩ := mutexThreadgroup_spawned inStep
      (mutexThreadgroup_of_handle inStep scanned assigned groupOf mutex)
    have single : g.threads.length = 1 := inv.numberOfThreads at_ worker
    have first := (List.getElem?_eq_some_iff.1 thread).1
    have first' := (List.getElem?_eq_some_iff.1 thread').1
    rw [at_] at at_'
    cases at_'
    exact apart (by rw [show i = i' by omega])

theorem groupOf_sample {ptr : Ptr} (member : ptr ∈ sampleGroup.dispatched) :
    GroupOf samplePending ptr sampleGroup := by
  have cases_ : ptr = 11 ∨ ptr = 12 := by simpa [sampleGroup, CallbackGroup.dispatched] using member
  refine ⟨⟨_, List.mem_cons_self, rfl, ?_⟩, ?_⟩
  · rcases cases_ with rfl | rfl
    · exact ⟨⟨.subscription, 11⟩, by decide, rfl⟩
    · exact ⟨⟨.timer, 12⟩, by decide, rfl⟩
  · rintro group ⟨entry, listed, isGroup, entity, inGroup, rfl⟩
    rcases List.mem_cons.1 listed with rfl | other
    · exact (Option.some.inj isGroup).symm
    · rw [List.mem_singleton.1 other] at isGroup
      cases isGroup
      have only : entity.rawPointer = 21 := by
        simp [CallbackGroup.collectAllPtrs] at inGroup
        rw [inGroup]
      rw [only] at cases_
      exact absurd cases_ (by decide)

/-- The subscription and the timer of the sample never overlap, whatever becomes ready. -/
theorem mutual_exclusion_sample :
    ∃ e registry, (ExecutorState.create sampleChains samplePending).startup sampleEnvironment none =
        .ok (e, registry) ∧
      (∃ worker, e.threadGroupIdWorkerMap.lookup 1 = some worker ∧ worker.threads.length = 1) ∧
      ∀ s, e.system.Reachable s → ∀ tgid tgid' i i' message,
        s.Runs tgid i (.loanedMsgSubscription 11 message) → s.Runs tgid' i' (.bundledTimer 12) →
        (tgid, i) = (tgid', i') := by
  obtain ⟨e, registry, handles, started, -, isHandles, first, second⟩ := sample_starts
  obtain ⟨handles', threadGroups, isHandles', -, -, spawned, exclusive⟩ :=
    mutual_exclusion sample_process started
  rw [isHandles] at isHandles'
  cases isHandles'
  have ofFirst : GroupOf samplePending 11 sampleGroup := groupOf_sample (by decide)
  have ofSecond : GroupOf samplePending 12 sampleGroup := groupOf_sample (by decide)
  obtain ⟨threadGroup, worker, -, -, inMap, -, single⟩ := spawned 11 1 sampleGroup first ofFirst rfl
  refine ⟨e, registry, started, ⟨worker, inMap, single⟩, ?_⟩
  intro s reachable tgid tgid' i i' message runs runs'
  by_contra apart
  exact exclusive s reachable tgid tgid' i i' _ _ runs runs' apart
    ⟨sampleGroup, sampleGroup, ofFirst, ofSecond, rfl, rfl, rfl⟩

end PreemptiveExecutor
