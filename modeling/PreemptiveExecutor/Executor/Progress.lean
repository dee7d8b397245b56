/-
# Executor.Progress — the executor runs everything it has taken

The internal steps of the running executor are those of its dispatch loop and of all
workers: no new call of `populate_ready_queues`, and no shutdown.  Each of them lowers
`RunningExecutor.work`, what the dispatch loop still has to hand over and what the
worker groups still have to do; so if nothing more becomes ready, the executor comes
to rest, however its threads are scheduled.

`executor_comes_to_rest` says what is then left: nothing, in every worker group that
has a thread.  Together with the order of the takes: every bundle that was taken for
such a threadgroup has been run, once.
-/
import PreemptiveExecutor.Workers.Progress
import PreemptiveExecutor.Executor.TakeOrder
import PreemptiveExecutor.Executor.Attendance

namespace PreemptiveExecutor

open Theory

set_option autoImplicit false

/-- The dispatch loop and the workers. -/
def SystemLabel.Internal : SystemLabel → Prop
  | .nextBatch _ => True
  | .fetchAdd => True
  | .updatePrio => True
  | .release => True
  | .worker _ _ _ => True
  | _ => False

/-- Nobody tells the executor to stop. -/
def SystemLabel.KeepsGoing : SystemLabel → Prop
  | .setOk ok => ok = true
  | .setSpinning spinning => spinning = true
  | .destroy _ => False
  | _ => True

/-- What the dispatch loop has to do before `spin` goes on, with the steps it leaves to
the worker groups. -/
def Cycle.work : Cycle → Nat
  | .dispatching pending => 1 + (pending.map fun batch => 8 + 20 * batch.2.length).sum
  | .handing _ rest => 1 + (rest.map fun batch => 8 + 20 * batch.2.length).sum
  | _ => 0

namespace RunningExecutor

def work (s : RunningExecutor) (e : ExecutorState) : Nat := s.cycle.work + s.sumGroups e WorkerGroup.work

end RunningExecutor

/-- The executor before shutdown: all worker groups go on. -/
structure SystemGoing (e : ExecutorState) (s : RunningExecutor) : Prop where
  groups : ∀ tgid g, s.groups tgid = some g → tgid ∈ e.threadGroupIdWorkerMap ∧ g.Going
  attended : Attended s

/-! ## Steps of one worker group -/

section Step

variable {e : ExecutorState} {s s' : RunningExecutor}

theorem sumGroups_put {tgid : Nat} {g : WorkerGroup BundledExecutable} (g' : WorkerGroup BundledExecutable)
    (cycle : Cycle) (count : WorkerGroup BundledExecutable → Nat) (present : tgid ∈ e.threadGroupIdWorkerMap)
    (found : s.groups tgid = some g) :
    (s.put tgid g' cycle).sumGroups e count + count g = s.sumGroups e count + count g' := by
  have sums := @sumGroups_update _ s (s.put tgid g' cycle) _ _ present rfl count
  rw [found] at sums
  exact sums

/-- A worker group that a step before shutdown moves is not told to stop. -/
theorem SystemLabel.KeepsGoing.moves {label : SystemLabel} {groupLabel : WorkerGroup.Label BundledExecutable}
    (keeps : label.KeepsGoing) (moves : label.Moves groupLabel) :
    (∀ on, groupLabel = .setOk on ∨ groupLabel = .setSpinning on → on = true) ∧ groupLabel ≠ .destroy := by
  refine ⟨fun on same => ?_, ?_⟩
  · rcases same with rfl | rfl
    · cases label with
      | setOk ok => exact Eq.trans moves keeps
      | _ => cases moves
    · cases label with
      | setSpinning spinning => exact Eq.trans moves keeps
      | _ => cases moves
  · rintro rfl
    cases label with
    | destroy tgid => cases keeps
    | _ => cases moves

/-- **A step before shutdown.** -/
theorem SystemGoing.step {label : SystemLabel} (going : SystemGoing e s) (keeps : label.KeepsGoing)
    (stepped : e.systemStep s label = some s') : SystemGoing e s' := by
  refine ⟨fun tgid g' at_ => ?_, going.attended.step stepped⟩
  obtain ⟨g, found, same | ⟨groupLabel, moves, stepped⟩⟩ := systemStep_groups stepped at_
  · subst same
    exact going.groups tgid g' found
  · obtain ⟨present, goes⟩ := going.groups tgid g found
    obtain ⟨staysOn, alive⟩ := keeps.moves moves
    exact ⟨present, goes.step staysOn alive stepped⟩

/-- **An internal step does some of the work.** -/
theorem systemStep_work {label : SystemLabel} (going : SystemGoing e s) (internal : label.Internal)
    (stepped : e.systemStep s label = some s') : s'.work e < s.work e := by
  have batch : ∀ {tgid bundles rest}, s.cycle = .dispatching ((tgid, bundles) :: rest) →
      s.cycle.work = (Cycle.dispatching rest).work + (8 + 20 * bundles.length) := by
    intro tgid bundles rest at_
    rw [at_, Cycle.work, Cycle.work, List.map_cons, List.sum_cons]
    show 1 + (8 + 20 * bundles.length + _) = _
    omega
  have one : ∀ {tgid : Nat} {groupLabel : WorkerGroup.Label BundledExecutable}
      {g g' : WorkerGroup BundledExecutable} {cycle : Cycle}, s.groups tgid = some g →
      g.step groupLabel = some g' → groupLabel.Internal →
        (s.put tgid g' cycle).sumGroups e WorkerGroup.work < s.sumGroups e WorkerGroup.work := by
    intro tgid groupLabel g g' cycle found moves inside
    obtain ⟨present, goes⟩ := going.groups tgid g found
    have less := WorkerGroup.step_work goes.covered inside moves
    have sums := sumGroups_put g' cycle WorkerGroup.work present found
    omega
  unfold RunningExecutor.work
  cases systemStep_performs stepped with
  | nobody | threw | collected | setOk | setSpinning | destroy => cases internal
  | drained at_ =>
      rw [at_]
      show 0 + s.sumGroups e WorkerGroup.work < 1 + 0 + s.sumGroups e WorkerGroup.work
      omega
  | @skipped _ tgid bundles rest at_ empty =>
      have before := batch at_
      show (Cycle.dispatching rest).work + s.sumGroups e WorkerGroup.work < _
      omega
  | unknown at_ | outOfMemory at_ =>
      have before := batch at_
      show 0 + s.sumGroups e WorkerGroup.work < _
      omega
  | @handed tgid bundles rest g g' at_ some_ found moves =>
      have before := batch at_
      have sums := sumGroups_put g' (.handing tgid rest) WorkerGroup.work (going.groups tgid g found).1 found
      have more : g'.work = g.work + (6 + 20 * bundles.length) := by
        obtain ⟨⟨idle, -, -⟩, rfl⟩ := WorkerGroup.step_enqueueBulk moves
        rw [WorkerGroup.work, WorkerGroup.work, idle]
        rfl
      show (Cycle.dispatching rest).work + (s.put tgid g' (.handing tgid rest)).sumGroups e WorkerGroup.work < _
      omega
  | fetchAdd _ found moves => exact Nat.add_lt_add_left (one found moves trivial) _
  | updatePrio _ found moves => exact Nat.add_lt_add_left (one found moves trivial) _
  | @updatePrioThrew tgid rest g g' what at_ found moves =>
      exact Nat.add_lt_add_of_le_of_lt (Nat.zero_le _) (one found moves trivial)
  | release at_ found moves =>
      rw [at_]
      exact Nat.add_lt_add_left (one found moves trivial) _
  | worker found moves => exact Nat.add_lt_add_left (one found moves trivial) _

theorem SystemLabel.Internal.keepsGoing {label : SystemLabel} (internal : label.Internal) :
    label.KeepsGoing := by
  cases label <;> trivial

theorem system_lowers (e : ExecutorState) :
    e.system.Lowers SystemLabel.Internal (SystemGoing e) fun s => s.work e where
  keeps _ _ _ going internal stepped := going.step internal.keepsGoing stepped
  lowers _ _ _ going internal stepped := systemStep_work going internal stepped

/-! ## At rest -/

/-- The dispatcher is between two batches of a worker group to which it is handing no batch. -/
theorem SystemGoing.dispatcher_idle (going : SystemGoing e s) {tgid : Nat} {g : WorkerGroup BundledExecutable}
    (at_ : s.groups tgid = some g) (outside : ¬ s.Handing tgid) : g.dispatcher = .idle := by
  have unthrown := (going.groups tgid g at_).2.balanced.dispatcher
  have stopped : g.dispatcher.stopped ≠ false := fun busy => outside (going.attended.busy tgid g at_ busy)
  cases isDispatcher : g.dispatcher with
  | idle => rfl
  | threw what =>
      rw [isDispatcher] at unthrown
      cases unthrown
  | _ =>
      rw [isDispatcher] at stopped
      exact absurd rfl stopped

/-- **At rest the dispatcher is outside the dispatch loop**, and between two batches of
every worker group. -/
theorem SystemGoing.rest (going : SystemGoing e s) (rest : e.system.AtRest SystemLabel.Internal s) :
    (s.cycle = .idle ∨ s.cycle.Threw) ∧
      ∀ tgid g, s.groups tgid = some g →
        g.dispatcher = .idle ∧ ∀ i action, g.step (.worker i action) = none := by
  have stuck : ∀ {label : SystemLabel} {s' : RunningExecutor}, e.Performs s label s' → ¬ label.Internal := by
    intro label s' performs internal
    have none_ : e.systemStep s label = none := rest _ internal
    rw [performs.systemStep] at none_
    cases none_
  have noBatch : ∀ tgid, ¬ s.Handing tgid := by
    rintro tgid ⟨rest', at_⟩
    obtain ⟨g, found, busy⟩ := going.attended.handing tgid ⟨rest', at_⟩
    have notIdle : g.dispatcher ≠ .idle := by
      intro idle
      rw [idle] at busy
      cases busy
    obtain ⟨label, g', isLabel, stepped⟩ := (going.groups tgid g found).2.dispatcher_steps notIdle
    rcases isLabel with rfl | rfl | rfl
    · exact stuck (.fetchAdd at_ found stepped) trivial
    · by_cases threw : ∃ what, g'.dispatcher = .threw what
      · obtain ⟨what, threw⟩ := threw
        exact stuck (.updatePrioThrew at_ found stepped threw) trivial
      · exact stuck (.updatePrio at_ found stepped (not_exists.1 threw)) trivial
    · exact stuck (.release at_ found stepped) trivial
  constructor
  · cases at_ : s.cycle with
    | idle => exact Or.inl rfl
    | threw error => exact Or.inr ⟨error, rfl⟩
    | handing tgid rest' => exact absurd ⟨rest', at_⟩ (noBatch tgid)
    | dispatching pending =>
        have noStep : ∀ s', ¬ e.Performs s (.nextBatch false) s' := fun s' performs => stuck performs trivial
        cases pending with
        | nil => exact absurd (.drained at_) (noStep _)
        | cons batch rest' =>
            cases some_ : batch.2.isEmpty with
            | true => exact absurd (.skipped at_ some_) (noStep _)
            | false =>
                cases found : s.groups batch.1 with
                | none => exact absurd (.unknown at_ some_ found) (noStep _)
                | some g => exact absurd (.outOfMemory at_ some_ found) (noStep _)
  · intro tgid g found
    refine ⟨going.dispatcher_idle found (noBatch tgid), fun i action => ?_⟩
    refine Option.eq_none_iff_forall_ne_some.2 fun g' moves => ?_
    exact stuck (.worker found moves) trivial

end Step

section Runs

variable {e : ExecutorState} {final : CallbackRegistry} {timing : TimingExport}

theorem systemGoing_running (started : ExecutorState.Started e final timing) : SystemGoing e e.running := by
  refine ⟨fun tgid g at_ => ?_, attended_running started⟩
  have present : tgid ∈ e.threadGroupIdWorkerMap := UnorderedMap.mem_iff_lookup.2 ⟨g, at_⟩
  have spawned : e.threadGroupIdWorkerMap.lookup tgid = some g := at_
  rw [started.workers] at spawned
  obtain ⟨threadGroup, -, rfl⟩ := Option.map_eq_some_iff.1 spawned
  rw [ExecutorState.spawnWorkerGroup_eq]
  refine ⟨present, ⟨WorkerGroup.tokensCovered_spawn .., WorkerGroup.balanced_spawn .., ?_, rfl, rfl, rfl, ?_⟩⟩
  · intro mutex
    have isMutex : threadGroup.isMutexGroup = true := mutex
    rw [WorkerGroup.spawn, List.length_replicate, if_pos isMutex]
  · intro exited
    cases List.eq_of_mem_replicate exited

/-- **Until it is told to stop**, the executor goes on. -/
theorem systemGoing_reachable (started : ExecutorState.Started e final timing) {s : RunningExecutor}
    (before : e.system.ReachableWhile (fun _ label => label.KeepsGoing) s) : SystemGoing e s := by
  refine Transition.invariant (SystemGoing e) (fun s start => ?_) (fun s label s' => SystemGoing.step) before
  rw [start]
  exact systemGoing_running started

/-- Internal steps collect nothing. -/
theorem actions_internal (e : ExecutorState) {s : RunningExecutor} {labels : List SystemLabel}
    (internal : ∀ label ∈ labels, label.Internal) : e.system.actions e.collects s labels = [] := by
  induction labels generalizing s with
  | nil => rfl
  | cons label labels ih =>
      obtain ⟨here, later⟩ := List.forall_mem_cons.1 internal
      have nothing : e.collects s label = [] := by cases label <;> first | rfl | cases here
      rw [Transition.actions, nothing, List.nil_append]
      cases e.system.step s label with
      | none => rfl
      | some s' => exact ih later

/-- What is left of the bundles that were taken when the executor has come to rest. -/
def RanAll (handles : UnorderedMap Ptr Nat) (taken : List BundledExecutable) (s : RunningExecutor) : Prop :=
  (s.cycle = .idle ∨ s.cycle.Threw) ∧
    ∀ tgid g, s.groups tgid = some g → g.threads ≠ [] →
      g.queue = [] ∧ g.numPending = 0 ∧ g.finished.Perm g.enqueued ∧
        (s.cycle = .idle → g.finished.Perm (taken.filter (·.leadsTo handles tgid)))

theorem ranAll_of_rest (started : ExecutorState.Started e final timing) {s : RunningExecutor}
    {taken : List BundledExecutable} (going : SystemGoing e s)
    (reachable : (e.system.withHistory e.collects).Reachable (s, taken))
    (rest : e.system.AtRest SystemLabel.Internal s) : RanAll timing.callbackHandleToThreadgroupId taken s := by
  obtain ⟨outside, groups⟩ := going.rest rest
  refine ⟨outside, fun tgid g at_ staffed => ?_⟩
  obtain ⟨idle, stuck⟩ := groups tgid g at_
  have inv := systemInv_reachable started (Transition.withHistory_reachable reachable)
  obtain ⟨isMutexGroup, priority, numberOfThreads, -, reached⟩ := (inv.groups tgid g at_).reached
  have done := (going.groups tgid g at_).2.done (WorkerGroup.conserved_reachable reached) staffed idle stuck
  refine ⟨done.queue, done.numPending, done.finished, fun isIdle => ?_⟩
  have order : TakenInv timing.callbackHandleToThreadgroupId s taken := takenInv_reachable started reachable
  have all := order.all (by rw [isIdle]; rintro ⟨error, ⟨⟩⟩) tgid g at_
  have nothing : s.cycle.pendingFor tgid = [] := by rw [isIdle]; rfl
  rw [nothing, List.append_nil] at all
  rw [← all]
  exact done.finished

end Runs

/-- **The executor runs all that it has taken.**  After a start-up that returned, in
every state of a run before shutdown: if nothing more becomes ready, then however the
dispatch loop and the workers are scheduled, they make at most `work` steps, and there
is such a run that ends where none of them can make another one; and there every
worker group with a thread has an empty queue, no pending bundle, and has run each
bundle it was handed exactly once, which are all that were taken for its threadgroup
unless the dispatcher has left by an exception. -/
theorem executor_comes_to_rest {env : Environment} {singleton : Option CallbackRegistry}
    {userChains : List UserChain} {pending weakGroupsToNodes : WeakCallbackGroupsToNodesMap}
    {e : ExecutorState} {registry' : CallbackRegistry}
    (process : ExecutorState.Singleton env singleton pending weakGroupsToNodes)
    (started : (ExecutorState.create userChains pending).startup env singleton = .ok (e, registry')) :
    ∃ handles, e.callbackHandleToThreadgroupId = some handles ∧
      ∀ s taken, (e.system.withHistory e.collects).ReachableWhile (fun _ label => label.KeepsGoing) (s, taken) →
        (∀ labels s', (∀ label ∈ labels, label.Internal) → e.system.run s labels = some s' →
          labels.length ≤ s.work e ∧
            (e.system.AtRest SystemLabel.Internal s' → RanAll handles taken s')) ∧
        ∃ labels s', (∀ label ∈ labels, label.Internal) ∧ e.system.run s labels = some s' ∧
          e.system.AtRest SystemLabel.Internal s' := by
  obtain ⟨preRegistered, final, timing, inStep, -⟩ := ExecutorState.startup_started process started
  refine ⟨_, inStep.handles, fun s taken reachable => ?_⟩
  have going : SystemGoing e s := systemGoing_reachable inStep
    (Transition.withHistory_reachableWhile (fun _ => SystemLabel.KeepsGoing) reachable)
  refine ⟨fun labels s' internal ran => ?_, (system_lowers e).comes_to_rest going⟩
  obtain ⟨goes, bound⟩ := (system_lowers e).run_le going internal ran
  refine ⟨Nat.le_of_add_right_le bound, fun rest => ranAll_of_rest inStep goes ?_ rest⟩
  have logged := Transition.withHistory_run e.collects ran taken
  rw [actions_internal e internal, List.append_nil] at logged
  exact Transition.reachableWhile_run reachable.reachable logged

theorem SampleRan.keepsGoing {e : ExecutorState} {registry : CallbackRegistry} {handles : UnorderedMap Ptr Nat}
    {s : RunningExecutor} {g : WorkerGroup BundledExecutable} (sample : SampleRan e registry handles s g) :
    (e.system.withHistory e.collects).ReachableWhile (fun _ label => label.KeepsGoing) (s, sampleBundles) :=
  sample.reachableWhile (by simp [sampleRun, SystemLabel.KeepsGoing])

/-- The sample runs the timer too, after the subscription. -/
theorem executor_comes_to_rest_sample :
    ∃ e registry handles s g, SampleRan e registry handles s g ∧
      ∃ labels s', (∀ label ∈ labels, label.Internal) ∧ e.system.run s labels = some s' ∧
        labels.length ≤ s.work e ∧ RanAll handles sampleBundles s' := by
  obtain ⟨e, registry, handles, s, g, sample⟩ := sample_runs
  obtain ⟨handles', isHandles', rests⟩ := executor_comes_to_rest sample_process sample.started
  rw [sample.isHandles] at isHandles'
  cases isHandles'
  obtain ⟨all, labels, s', internal, goes, rest⟩ := rests s sampleBundles sample.keepsGoing
  obtain ⟨bound, ranAll⟩ := all labels s' internal goes
  exact ⟨e, registry, handles, s, g, sample, labels, s', internal, goes, bound, ranAll rest⟩

end PreemptiveExecutor
