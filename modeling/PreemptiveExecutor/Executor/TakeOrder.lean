/-
# Executor.TakeOrder — from the take to the end of the run, in one order

A bundle is taken by one of the bundling loops, waits in `bundles_by_tgid` for the
dispatch loop, then in the queue of its worker group, and is run by one of its
threads.  The log of `ExecutorState.collects` lists the bundles of all calls whose
bundling loops returned, in the order in which they were taken.

`taken_in_order` follows the bundles of one threadgroup through all of it: at every
moment those finished, those a thread has, those queued and those the dispatch loop
still has are the bundles taken for the threadgroup.  For a mutex group, whose one
thread overtakes nobody, that is an equation between lists: its callbacks run in the
order in which their messages were taken.
-/
import PreemptiveExecutor.Executor.ExactDispatch
import PreemptiveExecutor.Executor.RoutedService

namespace PreemptiveExecutor

open Theory

set_option autoImplicit false

/-- The bundles of a threadgroup that the dispatch loop still has. -/
def Cycle.pendingFor (cycle : Cycle) (tgid : Nat) : List BundledExecutable :=
  cycle.pending.flatMap fun batch => if batch.1 = tgid then batch.2 else []

/-- The dispatcher has left `spin` by an exception. -/
def Cycle.Threw (cycle : Cycle) : Prop := ∃ error, cycle = .threw error

/-- The bundles of a call whose bundling loops return. -/
def ExecutorState.collects (e : ExecutorState) (s : RunningExecutor) : SystemLabel → List BundledExecutable
  | .populate ready _ =>
      match s.cycle with
      | .idle =>
          if e.threadGroupIdWorkerMap.keys.isEmpty then []
          else
            match collectBundles e.callbackHandleToThreadgroupId ready with
            | .error _ => []
            | .ok _ => ready.taken
      | _ => []
  | _ => []

/-! ## What a step does with the order -/

/-- Everything a step can do to what is collected and handed over. -/
inductive DispatchFlow (e : ExecutorState) (s s' : RunningExecutor) : SystemLabel → Prop where
  | collect {ready : ReadyHandles} {choices : DispatchChoices} {c : Collected} (idle : s.cycle = .idle)
      (collects : collectBundles e.callbackHandleToThreadgroupId ready = .ok c)
      (logs : e.collects s (.populate ready choices) = ready.taken) (groups : s'.groups = s.groups)
      (cycle : s'.cycle =
        .dispatching ((choices.order c.bundlesByTgid).entries.map fun pair => (pair.1, pair.2))) :
      DispatchFlow e s s' (.populate ready choices)
  | hand {enqueueOk : Bool} {tgid : Nat} {bundles : List BundledExecutable}
      {rest : List (Nat × List BundledExecutable)} {g g' : WorkerGroup BundledExecutable}
      (at_ : s.cycle = .dispatching ((tgid, bundles) :: rest)) (found : s.groups tgid = some g)
      (groups : s'.groups = Function.update s.groups tgid (some g'))
      (handed : g'.enqueued = g.enqueued ++ bundles) (cycle : s'.cycle = .handing tgid rest) :
      DispatchFlow e s s' (.nextBatch enqueueOk)
  | other {label : SystemLabel} (quiet : e.collects s label = [])
      (groups : ∀ id, (s'.groups id).map WorkerGroup.enqueued = (s.groups id).map WorkerGroup.enqueued)
      (kept : ¬ s'.cycle.Threw → ¬ s.cycle.Threw ∧ ∀ id, s'.cycle.pendingFor id = s.cycle.pendingFor id) :
      DispatchFlow e s s' label

section Flow

variable {e : ExecutorState} {s s' : RunningExecutor} {label : SystemLabel}

/-- A step of one worker group that leaves the batches alone. -/
theorem DispatchFlow.stays {tgid : Nat} {groupLabel : WorkerGroup.Label BundledExecutable}
    {g g' : WorkerGroup BundledExecutable} {cycle : Cycle} (found : s.groups tgid = some g)
    (moves : g.step groupLabel = some g') (quiet : ∀ bundles, groupLabel ≠ .enqueueBulk bundles)
    (silent : e.collects s label = [])
    (kept : ¬ cycle.Threw → ¬ s.cycle.Threw ∧ ∀ id, cycle.pendingFor id = s.cycle.pendingFor id) :
    DispatchFlow e s (s.put tgid g' cycle) label :=
  .other silent (stepGroup_enqueued (stepGroup_put found moves) quiet).1 kept

theorem systemStep_dispatch (stepped : e.systemStep s label = some s') : DispatchFlow e s s' label := by
  cases systemStep_performs stepped with
  | nobody idle nobody =>
      refine .other ?_ (fun _ => rfl) fun going => ⟨going, fun _ => rfl⟩
      simp only [ExecutorState.collects, idle, nobody, ↓reduceIte]
  | @threw _ _ error idle somebody collects =>
      refine .other ?_ (fun _ => rfl) fun going => absurd ⟨error, rfl⟩ going
      simp only [ExecutorState.collects, idle, somebody, collects, Bool.false_eq_true, ↓reduceIte]
  | collected idle somebody collects =>
      refine .collect idle collects ?_ rfl rfl
      simp only [ExecutorState.collects, idle, somebody, collects, Bool.false_eq_true, ↓reduceIte]
  | drained at_ =>
      refine .other rfl (fun _ => rfl) fun _ => ⟨?_, fun _ => by rw [at_]; rfl⟩
      rw [at_]
      rintro ⟨error, ⟨⟩⟩
  | @skipped _ tgid bundles rest at_ empty =>
      refine .other rfl (fun _ => rfl) fun _ => ?_
      rw [at_]
      refine ⟨by rintro ⟨error, ⟨⟩⟩, fun id => ?_⟩
      have none_ : (if tgid = id then bundles else []) = [] := by
        rw [List.isEmpty_iff.1 empty, ite_self]
      simp [Cycle.pendingFor, Cycle.pending, none_]
  | unknown | outOfMemory => exact .other rfl (fun _ => rfl) fun going => absurd ⟨_, rfl⟩ going
  | handed at_ _ found moves => exact .hand at_ found rfl (WorkerGroup.step_enqueued moves) rfl
  | fetchAdd _ found moves => exact .stays found moves (by rintro _ ⟨⟩) rfl fun going => ⟨going, fun _ => rfl⟩
  | updatePrio _ found moves => exact .stays found moves (by rintro _ ⟨⟩) rfl fun going => ⟨going, fun _ => rfl⟩
  | updatePrioThrew _ found moves =>
      exact .stays found moves (by rintro _ ⟨⟩) rfl fun going => absurd ⟨_, rfl⟩ going
  | release at_ found moves =>
      refine .stays found moves (by rintro _ ⟨⟩) rfl fun _ => ?_
      rw [at_]
      exact ⟨by rintro ⟨error, ⟨⟩⟩, fun _ => rfl⟩
  | worker found moves => exact .stays found moves (by rintro _ ⟨⟩) rfl fun going => ⟨going, fun _ => rfl⟩
  | setOk | setSpinning =>
      exact .other rfl (stepAll_enqueued s (by rintro _ ⟨⟩)) fun going => ⟨going, fun _ => rfl⟩
  | destroy _ found moves => exact .stays found moves (by rintro _ ⟨⟩) rfl fun going => ⟨going, fun _ => rfl⟩

end Flow

/-! ## The order of the takes -/

/-- What a worker group has been handed are the first bundles taken for its
threadgroup; with those the dispatch loop still has, they are all of them. -/
structure TakenInv (handles : UnorderedMap Ptr Nat) (s : RunningExecutor) (taken : List BundledExecutable) :
    Prop where
  handed : ∀ tgid g, s.groups tgid = some g → g.enqueued <+: taken.filter (·.leadsTo handles tgid)
  all : ¬ s.cycle.Threw → ∀ tgid g, s.groups tgid = some g →
    g.enqueued ++ s.cycle.pendingFor tgid = taken.filter (·.leadsTo handles tgid)

section Runs

variable {e : ExecutorState} {handles : UnorderedMap Ptr Nat} {s s' : RunningExecutor}
  {taken : List BundledExecutable}

theorem TakenInv.of_all
    (all : ∀ tgid g, s.groups tgid = some g →
      g.enqueued ++ s.cycle.pendingFor tgid = taken.filter (·.leadsTo handles tgid)) :
    TakenInv handles s taken :=
  ⟨fun tgid g at_ => ⟨_, all tgid g at_⟩, fun _ => all⟩

theorem pendingFor_collected {ready : ReadyHandles} {c : Collected} (choices : DispatchChoices)
    (collect : collectBundles (some handles) ready = .ok c) (tgid : Nat) :
    (Cycle.dispatching ((choices.order c.bundlesByTgid).entries.map fun pair => (pair.1, pair.2))).pendingFor
      tgid = ready.taken.filter (·.leadsTo handles tgid) := by
  rw [← subscript_ordered collect choices, ← UnorderedMap.segment_entries]
  simp only [Cycle.pendingFor, Cycle.pending, UnorderedMap.segment, List.flatMap_map]

/-- The groups of two states that were handed the same. -/
theorem enqueued_of_map {tgid : Nat} {g' : WorkerGroup BundledExecutable}
    (same : (s'.groups tgid).map WorkerGroup.enqueued = (s.groups tgid).map WorkerGroup.enqueued)
    (at_ : s'.groups tgid = some g') : ∃ g, s.groups tgid = some g ∧ g'.enqueued = g.enqueued := by
  rw [at_, Option.map_some] at same
  obtain ⟨g, found, isThis⟩ := Option.map_eq_some_iff.1 same.symm
  exact ⟨g, found, isThis.symm⟩

theorem TakenInv.step (loaded : e.callbackHandleToThreadgroupId = some handles) {label : SystemLabel}
    (inv : TakenInv handles s taken) (stepped : e.systemStep s label = some s') :
    TakenInv handles s' (taken ++ e.collects s label) := by
  cases systemStep_dispatch stepped with
  | collect idle collects logs groups cycle =>
      rename_i ready choices c
      rw [loaded] at collects
      refine .of_all fun tgid g at_ => ?_
      rw [groups] at at_
      have before := inv.all (by rw [idle]; rintro ⟨error, ⟨⟩⟩) tgid g at_
      rw [idle] at before
      rw [logs, cycle, pendingFor_collected choices collects, List.filter_append, ← before]
      simp [Cycle.pendingFor, Cycle.pending]
  | @hand enqueueOk tgid' bundles rest g g' atBatch found groups handed cycle =>
      have nothing : e.collects s (.nextBatch enqueueOk) = [] := rfl
      refine .of_all fun tgid g₁ at_ => ?_
      have before := inv.all (by rw [atBatch]; rintro ⟨error, ⟨⟩⟩) tgid
      rw [atBatch] at before
      simp only [Cycle.pendingFor, Cycle.pending, List.flatMap_cons] at before
      rw [groups] at at_
      rw [nothing, List.append_nil, cycle]
      by_cases same : tgid = tgid'
      · subst same
        rw [Function.update_self] at at_
        cases at_
        rw [handed, ← before g found, if_pos rfl, List.append_assoc]
        rfl
      · rw [Function.update_of_ne same] at at_
        rw [← before g₁ at_, if_neg fun h => same h.symm]
        rfl
  | other quiet groups kept =>
      rw [quiet, List.append_nil]
      refine ⟨fun tgid g' at_ => ?_, fun going tgid g' at_ => ?_⟩
      · obtain ⟨g, found, same⟩ := enqueued_of_map (groups tgid) at_
        rw [same]
        exact inv.handed tgid g found
      · obtain ⟨g, found, same⟩ := enqueued_of_map (groups tgid) at_
        obtain ⟨goingBefore, pending⟩ := kept going
        rw [same, pending]
        exact inv.all goingBefore tgid g found

theorem takenInv_reachable {final : CallbackRegistry} {timing : TimingExport}
    (started : ExecutorState.Started e final timing) {p : RunningExecutor × List BundledExecutable}
    (reachable : (e.system.withHistory e.collects).Reachable p) :
    TakenInv timing.callbackHandleToThreadgroupId p.1 p.2 := by
  refine Transition.invariant (fun p => TakenInv timing.callbackHandleToThreadgroupId p.1 p.2)
    (fun p start => ?_) (fun p label p' inv _ stepped => ?_) reachable
  · obtain ⟨executor, log⟩ := start
    rw [executor, log]
    refine .of_all fun tgid g at_ => ?_
    have spawned : e.threadGroupIdWorkerMap.lookup tgid = some g := at_
    rw [started.workers] at spawned
    obtain ⟨threadGroup, -, rfl⟩ := Option.map_eq_some_iff.1 spawned
    rw [ExecutorState.spawnWorkerGroup_eq]
    rfl
  · obtain ⟨s', moved, rfl⟩ := Option.map_eq_some_iff.1 stepped
    exact inv.step started.handles moved

end Runs

/-- **Bundles reach the end of their run in the order of the takes.**  After a start-up
that returned, in every state of every run, for every worker group: what it has been
handed are the first bundles taken for its threadgroup, and all of them with those the
dispatch loop still has, unless the dispatcher has left by an exception; of those
handed, the ones taken from the queue are again the first, each finished or with one
of the threads; and a mutex group finishes them in the order in which they were
taken. -/
theorem taken_in_order {env : Environment} {singleton : Option CallbackRegistry}
    {userChains : List UserChain} {pending weakGroupsToNodes : WeakCallbackGroupsToNodesMap}
    {e : ExecutorState} {registry' : CallbackRegistry}
    (process : ExecutorState.Singleton env singleton pending weakGroupsToNodes)
    (started : (ExecutorState.create userChains pending).startup env singleton = .ok (e, registry')) :
    ∃ handles, e.callbackHandleToThreadgroupId = some handles ∧
      ∀ s taken, (e.system.withHistory e.collects).Reachable (s, taken) →
        ∀ tgid g, s.groups tgid = some g →
          g.enqueued <+: taken.filter (·.leadsTo handles tgid) ∧
          (¬ s.cycle.Threw →
            g.enqueued ++ s.cycle.pendingFor tgid = taken.filter (·.leadsTo handles tgid)) ∧
          (∃ started, g.enqueued = started ++ g.queued ∧ started.Perm (g.beingRun ++ g.finished) ∧
            g.beingRun.length ≤ g.threads.length) ∧
          (g.isMutexGroup = true →
            g.finished ++ g.beingRun ++ g.queued <+: taken.filter (·.leadsTo handles tgid)) := by
  obtain ⟨preRegistered, final, timing, inStep, -⟩ := ExecutorState.startup_started process started
  refine ⟨_, inStep.handles, fun s taken reachable tgid g at_ => ?_⟩
  have order : TakenInv timing.callbackHandleToThreadgroupId s taken := takenInv_reachable inStep reachable
  have inv := systemInv_reachable inStep (Transition.withHistory_reachable reachable)
  obtain ⟨isMutexGroup, priority, numberOfThreads, -, reached⟩ := (inv.groups tgid g at_).reached
  have size := WorkerGroup.threads_length_reachable reached
  obtain ⟨fifo, inOrder⟩ := WorkerGroup.inOrder_reachable reached
  refine ⟨order.handed tgid g at_, fun going => order.all going tgid g at_, by rwa [size], fun mutex => ?_⟩
  have one : numberOfThreads = 1 := by rw [← size]; exact inv.soleMutexThread inStep at_ mutex
  rw [inOrder one]
  exact order.handed tgid g at_

/-! ### The run of the sample -/

/-- Where `sampleRun` gets to: the worker of the mutex group `g` has the first bundle, and
the second is queued. -/
structure SampleRan (e : ExecutorState) (registry : CallbackRegistry) (handles : UnorderedMap Ptr Nat)
    (s : RunningExecutor) (g : WorkerGroup BundledExecutable) : Prop where
  started : (ExecutorState.create sampleChains samplePending).startup sampleEnvironment none = .ok (e, registry)
  isHandles : e.callbackHandleToThreadgroupId = some handles
  weakGroups : e.weakGroupsToNodes = [⟨some sampleGroup, some 100⟩]
  keys : e.threadGroupIdWorkerMap.keys = [1]
  ran : e.system.run e.running sampleRun = some s
  logged : (e.system.withHistory e.collects).run (e.running, []) sampleRun = some (s, sampleBundles)
  idle : s.cycle = .idle
  at_ : s.groups 1 = some g
  mutex : g.isMutexGroup = true
  enqueued : g.enqueued = sampleBundles
  threads : g.threads = [.running (.loanedMsgSubscription 11 7)]
  queue : g.queue = [some (.bundledTimer 12)]
  began : g.started = [.loanedMsgSubscription 11 7]

theorem sample_runs : ∃ e registry handles s g, SampleRan e registry handles s g := by
  obtain ⟨⟨e, registry⟩, started, runs⟩ := Loop.exists_ok_of_any
    (x := (ExecutorState.create sampleChains samplePending).startup sampleEnvironment none)
    (p := fun result => (result.1.system.run result.1.running sampleRun).any fun s : RunningExecutor =>
      (s.groups 1).any fun g : WorkerGroup BundledExecutable => decide
        ((result.1.weakGroupsToNodes = [⟨some sampleGroup, some 100⟩] ∧
          result.1.threadGroupIdWorkerMap.keys = [1] ∧
          result.1.system.actions result.1.collects result.1.running sampleRun = sampleBundles) ∧
        s.cycle = .idle ∧ g.isMutexGroup = true ∧ g.enqueued = sampleBundles ∧
        g.threads = [.running (.loanedMsgSubscription 11 7)] ∧ g.queue = [some (.bundledTimer 12)] ∧
        g.started = [.loanedMsgSubscription 11 7])) (by decide)
  obtain ⟨s, ran, values⟩ := (Option.any_eq_true _ _).1 runs
  obtain ⟨g, at_, values⟩ := (Option.any_eq_true _ _).1 values
  obtain ⟨⟨weakGroups, keys, taken⟩, idle, mutex, enqueued, threads, queue, began⟩ := of_decide_eq_true values
  obtain ⟨_, _, timing, inStep, -⟩ := ExecutorState.startup_started sample_process started
  have logged := Transition.withHistory_run e.collects ran []
  rw [taken] at logged
  exact ⟨e, registry, timing.callbackHandleToThreadgroupId, s, g,
    { started, isHandles := inStep.handles, weakGroups, keys, ran, logged, idle, at_, mutex, enqueued, threads,
      queue, began }⟩

namespace SampleRan

variable {e : ExecutorState} {registry : CallbackRegistry} {handles : UnorderedMap Ptr Nat} {s : RunningExecutor}
  {g : WorkerGroup BundledExecutable}

theorem reachableWhile (sample : SampleRan e registry handles s g) {kind : SystemLabel → Prop}
    (of_kind : ∀ label ∈ sampleRun, kind label) :
    (e.system.withHistory e.collects).ReachableWhile (fun _ label => kind label) (s, sampleBundles) :=
  have start : (e.system.withHistory e.collects).Init (e.running, []) := ⟨rfl, rfl⟩
  Transition.reachableWhile_of_kind (.init start) of_kind sample.logged

end SampleRan

/-- The mutex group of the sample has the bundles in the order of the takes. -/
theorem taken_in_order_sample :
    ∃ e registry handles s g, SampleRan e registry handles s g ∧
      g.enqueued ++ s.cycle.pendingFor 1 = sampleBundles.filter (·.leadsTo handles 1) ∧
      g.finished ++ g.beingRun ++ g.queued <+: sampleBundles.filter (·.leadsTo handles 1) := by
  obtain ⟨e, registry, handles, s, g, sample⟩ := sample_runs
  obtain ⟨handles', isHandles', order⟩ := taken_in_order sample_process sample.started
  rw [sample.isHandles] at isHandles'
  cases isHandles'
  have reachable : (e.system.withHistory e.collects).Reachable (s, sampleBundles) :=
    sample.reachableWhile fun _ _ => trivial
  obtain ⟨-, all, -, inOrder⟩ := order s sampleBundles reachable 1 g sample.at_
  refine ⟨e, registry, handles, s, g, sample, all ?_, inOrder sample.mutex⟩
  rw [sample.idle]
  rintro ⟨error, ⟨⟩⟩

end PreemptiveExecutor
