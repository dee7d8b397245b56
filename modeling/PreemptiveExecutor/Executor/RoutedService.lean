/-
# Executor.RoutedService — the running executor as one queue for each threadgroup

Over the worker groups: `RunningExecutor.services` reads the running executor as a
family of first-in first-out queues, one for each threadgroup, with the threads of
its worker group as servers, and with the exported handle map as the route of a
bundle.  `executor_refines` says that the dispatcher and all workers together, in any
interleaving, do nothing else to them than to submit, start and complete.

Before a bundle is in a queue it is with the dispatcher, sorted by threadgroup.
`taken_in_order` follows it from the take: what a worker group has been handed and
what the dispatch loop still has for it are the bundles taken for its threadgroup, in
the order in which they were taken.
-/
import PreemptiveExecutor.Workers.Service
import PreemptiveExecutor.Executor.Deliveries
import PreemptiveExecutor.Executor.SystemSteps

namespace PreemptiveExecutor

open Theory

set_option autoImplicit false

namespace RunningExecutor

def services (s : RunningExecutor) : RoutedQueues Nat BundledExecutable :=
  fun tgid => (s.groups tgid).map WorkerGroup.service

/-- The actions of a step: a batch that is handed over, or those of the worker group
that makes it. -/
def serviceActions (s : RunningExecutor) : SystemLabel → List (Nat × ServiceAction BundledExecutable)
  | .nextBatch enqueueOk =>
      match s.cycle with
      | .dispatching ((tgid, bundles) :: _) =>
          if bundles.isEmpty || (s.groups tgid).isNone || !enqueueOk then [] else [(tgid, .submit bundles)]
      | _ => []
  | .worker tgid i action => (WorkerGroup.Label.worker i action).service.map fun action => (tgid, action)
  | _ => []

end RunningExecutor

namespace ExecutorState

/-- The number of threads of a worker group. -/
def servers (e : ExecutorState) (tgid : Nat) : Option Nat :=
  (e.threadGroupIdWorkerMap.lookup tgid).map fun g => g.threads.length

/-- The queues, with the threads of the worker map and the route of the handle map. -/
def queues (e : ExecutorState) (handles : UnorderedMap Ptr Nat) :
    Transition (RoutedQueues Nat BundledExecutable) (Nat × ServiceAction BundledExecutable) :=
  RoutedQueues.system (fun bundle => handles.lookup bundle.getRawHandle) e.servers

end ExecutorState

/-! ## Steps of the executor -/

section Step

variable {e : ExecutorState} {handles : UnorderedMap Ptr Nat} {s s' : RunningExecutor}

theorem services_put {tgid : Nat} {label : WorkerGroup.Label BundledExecutable}
    {g g' : WorkerGroup BundledExecutable} (cycle : Cycle) (inv : SystemInv e handles s)
    (found : s.groups tgid = some g) (stepped : g.step label = some g')
    (jobs : ∀ bundle ∈ label.service.flatMap ServiceAction.jobs,
      handles.lookup bundle.getRawHandle = some tgid) :
    (e.queues handles).run s.services (label.service.map fun action => (tgid, action)) =
      some (s.put tgid g' cycle).services := by
  obtain ⟨isMutexGroup, priority, numberOfThreads, -, reached⟩ := (inv.groups tgid g found).reached
  have served := WorkerGroup.step_service (WorkerGroup.tokensCovered_reachable reached) stepped
  have here : s.services tgid = some g.service := by rw [RunningExecutor.services, found, Option.map_some]
  have known : ∀ action ∈ label.service, ∀ job ∈ action.jobs, handles.lookup job.getRawHandle = some tgid :=
    fun action member job inJobs => jobs job (List.mem_flatMap.2 ⟨action, member, inJobs⟩)
  rw [ExecutorState.queues, RoutedQueues.run_at here known served]
  exact congrArg some (Function.comp_update (Option.map WorkerGroup.service) s.groups tgid (some g')).symm

/-- A step of one group that the queues do not see. -/
theorem services_quiet {tgid : Nat} {label : WorkerGroup.Label BundledExecutable}
    {g g' : WorkerGroup BundledExecutable} {cycle : Cycle} (inv : SystemInv e handles s)
    (found : s.groups tgid = some g) (stepped : g.step label = some g') (quiet : label.service = []) :
    some s.services = some (s.put tgid g' cycle).services := by
  have ran := services_put cycle inv found stepped (by rw [quiet]; exact fun _ member => nomatch member)
  rw [quiet] at ran
  exact ran

theorem services_stepAll {label : WorkerGroup.Label BundledExecutable} (inv : SystemInv e handles s)
    (quiet : label.service = []) : (s.stepAll label).services = s.services := by
  funext tgid
  show ((s.groups tgid).map fun g => (g.step label).getD g).map WorkerGroup.service = _
  cases at_ : s.groups tgid with
  | none => simp [RunningExecutor.services, at_]
  | some g =>
      obtain ⟨isMutexGroup, priority, numberOfThreads, -, reached⟩ := (inv.groups tgid g at_).reached
      cases stepped : g.step label with
      | none => simp [RunningExecutor.services, at_, stepped]
      | some g' =>
          have served := WorkerGroup.step_service (WorkerGroup.tokensCovered_reachable reached) stepped
          rw [quiet] at served
          simp [RunningExecutor.services, at_, stepped, ← Option.some.inj served]

/-- **A step of the executor** is the actions of `serviceActions`. -/
theorem systemStep_services {label : SystemLabel} (inv : SystemInv e handles s)
    (stepped : e.systemStep s label = some s') :
    (e.queues handles).run s.services (s.serviceActions label) = some s'.services := by
  cases systemStep_performs stepped with
  | nobody | threw | collected => rfl
  | drained at_ =>
      simp only [RunningExecutor.serviceActions, at_]
      rfl
  | skipped at_ empty =>
      simp only [RunningExecutor.serviceActions, at_, empty, Bool.true_or, ↓reduceIte]
      rfl
  | unknown at_ some_ missing =>
      simp only [RunningExecutor.serviceActions, at_, missing, Option.isNone_none, Bool.or_true, Bool.true_or,
        ↓reduceIte]
      rfl
  | outOfMemory at_ =>
      simp only [RunningExecutor.serviceActions, at_, Bool.not_false, Bool.or_true, ↓reduceIte]
      rfl
  | @handed tgid bundles rest g g' at_ some_ found moves =>
      have pending := inv.pending
      rw [at_] at pending
      simp only [RunningExecutor.serviceActions, at_, some_, found, Option.isNone_some, Bool.not_true,
        Bool.or_false, Bool.false_eq_true, ↓reduceIte]
      refine services_put _ inv found moves fun bundle member => ?_
      rw [WorkerGroup.Label.service, List.flatMap_singleton] at member
      exact pending (tgid, bundles) List.mem_cons_self bundle member
  | fetchAdd _ found moves => exact services_quiet inv found moves rfl
  | updatePrio _ found moves => exact services_quiet inv found moves rfl
  | updatePrioThrew _ found moves => exact services_quiet inv found moves rfl
  | release _ found moves => exact services_quiet inv found moves rfl
  | @worker tgid i action g g' found moves =>
      refine services_put _ inv found moves fun bundle member => ?_
      cases action <;> cases member
  | setOk => exact congrArg some (services_stepAll inv rfl).symm
  | setSpinning => exact congrArg some (services_stepAll inv rfl).symm
  | destroy _ found moves => exact services_quiet inv found moves rfl

end Step

/-! ## Runs of the executor -/

section Runs

variable {e : ExecutorState} {final : CallbackRegistry} {timing : TimingExport}

theorem servers_started (started : ExecutorState.Started e final timing) (tgid : Nat) :
    e.servers tgid = (timing.threadgroupAttributes.lookup tgid).map fun threadGroup =>
      if threadGroup.isMutexGroup then 1 else threadGroup.numberOfThreads := by
  rw [ExecutorState.servers, started.workers, Option.map_map]
  congr 1
  funext threadGroup
  simp [ExecutorState.spawnWorkerGroup_eq, WorkerGroup.spawn]

theorem services_running (started : ExecutorState.Started e final timing) :
    e.running.services = fun tgid => (e.servers tgid).map ServiceQueue.idle := by
  funext tgid
  show (e.threadGroupIdWorkerMap.lookup tgid).map WorkerGroup.service = _
  rw [servers_started started, started.workers, Option.map_map, Option.map_map]
  congr 1
  funext threadGroup
  simp only [Function.comp_apply, ExecutorState.spawnWorkerGroup_eq]
  exact WorkerGroup.service_spawn _ _ _

theorem executor_refines (started : ExecutorState.Started e final timing) :
    Transition.Refines e.system (e.queues timing.callbackHandleToThreadgroupId) RunningExecutor.services
      RunningExecutor.serviceActions where
  init s start := by rw [start]; exact services_running started
  step _ _ _ reachable stepped := systemStep_services (systemInv_reachable started reachable) stepped

end Runs

/-- **The running executor serves each threadgroup first in, first out.**  After a
start-up that returned, every run of the dispatcher and of all workers, in any
interleaving, is a run of the routed queues: one queue for each exported threadgroup,
with one server if that is a mutex group and with as many as it has threads otherwise,
where a bundle can be submitted only to the queue its handle leads to. -/
theorem executor_serves {env : Environment} {singleton : Option CallbackRegistry}
    {userChains : List UserChain} {pending weakGroupsToNodes : WeakCallbackGroupsToNodesMap}
    {e : ExecutorState} {registry' : CallbackRegistry}
    (process : ExecutorState.Singleton env singleton pending weakGroupsToNodes)
    (started : (ExecutorState.create userChains pending).startup env singleton = .ok (e, registry')) :
    ∃ handles threadGroups, e.callbackHandleToThreadgroupId = some handles ∧
      e.threadGroups = some threadGroups ∧
      (∀ tgid, e.servers tgid = (threadGroups.lookup tgid).map fun threadGroup =>
        if threadGroup.isMutexGroup then 1 else threadGroup.numberOfThreads) ∧
      ∀ labels s, e.system.run e.running labels = some s →
        (e.queues handles).run (fun tgid => (e.servers tgid).map ServiceQueue.idle)
          (e.system.actions RunningExecutor.serviceActions e.running labels) = some s.services := by
  obtain ⟨preRegistered, final, timing, inStep, -⟩ := ExecutorState.startup_started process started
  refine ⟨_, _, inStep.handles, inStep.threadGroups, servers_started inStep, fun labels s ran => ?_⟩
  rw [← services_running inStep]
  exact (executor_refines inStep).run (.init rfl) ran

/-! ### A run of the sample -/

/-- The subscription of the mutex group, with a loaned message, and its timer. -/
def sampleReadyHandles : ReadyHandles where
  subscriptions := [{ ptr := 11, isSerialized := false, canLoanMessages := true, take := .taken,
                      loanedMsg := 7, message := 0, serializedMsg := 0 }]
  timers := [{ ptr := 12, call := true }]

def sampleBundles : List BundledExecutable := [.loanedMsgSubscription 11 7, .bundledTimer 12]

/-- The dispatcher hands over both and boosts the worker, which is in the handler of the
subscription when the call of `populate_ready_queues` returns. -/
def sampleRun : List SystemLabel :=
  [.populate sampleReadyHandles storedDispatch, .nextBatch true, .fetchAdd, .updatePrio, .updatePrio, .updatePrio,
    .updatePrio, .release, .worker 1 0 .acquire, .worker 1 0 .check, .worker 1 0 .tryDequeue,
    .worker 1 0 .startRun, .nextBatch true]

def sampleService : ServiceQueue BundledExecutable :=
  { waiting := [.bundledTimer 12], serving := [some (.loanedMsgSubscription 11 7)] }

/-- The mutex group of the sample is a queue with one server: both bundles are submitted to
it, and the server starts the first. -/
theorem executor_serves_sample :
    ∃ e registry handles s,
      (ExecutorState.create sampleChains samplePending).startup sampleEnvironment none = .ok (e, registry) ∧
      e.callbackHandleToThreadgroupId = some handles ∧ e.system.run e.running sampleRun = some s ∧
      (e.queues handles).run (fun tgid => (e.servers tgid).map ServiceQueue.idle)
        [(1, .submit sampleBundles), (1, .start 0)] = some s.services ∧
      s.services 1 = some sampleService := by
  obtain ⟨⟨e, registry⟩, started, runs⟩ := Loop.exists_ok_of_any
    (x := (ExecutorState.create sampleChains samplePending).startup sampleEnvironment none)
    (p := fun result => (result.1.system.run result.1.running sampleRun).any fun s : RunningExecutor =>
      decide (result.1.system.actions RunningExecutor.serviceActions result.1.running sampleRun =
          [(1, .submit sampleBundles), (1, .start 0)] ∧ s.services 1 = some sampleService)) (by decide)
  obtain ⟨s, ran, values⟩ := (Option.any_eq_true _ _).1 runs
  obtain ⟨actions, queue⟩ := of_decide_eq_true values
  obtain ⟨handles, threadGroups, isHandles, -, -, serves⟩ := executor_serves sample_process started
  refine ⟨e, registry, handles, s, started, isHandles, ran, ?_, queue⟩
  rw [← actions]
  exact serves sampleRun s ran

end PreemptiveExecutor
