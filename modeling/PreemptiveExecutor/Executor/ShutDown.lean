/-
# Executor.ShutDown — the worker groups can always be destroyed

After `spin` has left, by its condition or by an exception, the destructor of the worker
map destroys the worker groups one after the other: each releases a token for each of its
threads and joins them before the next one begins (`ExecutorState.shutdown`).  The
threads of all groups go on meanwhile.

`executor_shuts_down`: from every state in which `spin` has left, whatever the threads
are doing, this comes to an end, and then all threads of all worker groups have exited.
Each worker group has run what it had started, and one bundle more for each thread
that was past the check; what is queued still has not been run and never will be.

The body of the destructor of the executor, `stop_non_rt_executor`, comes before that and is
left out: it cancels the executor of the other groups and joins its thread.  A cancellation
before that thread has begun to spin is lost, and the join then waits for as long as it spins.
-/
import PreemptiveExecutor.Workers.Leaving
import PreemptiveExecutor.Executor.ExactDispatch
import PreemptiveExecutor.Executor.Progress

namespace PreemptiveExecutor

open Theory

set_option autoImplicit false

/-- `spin` has left, and its scope guard has run. -/
def RunningExecutor.LeftSpin (s : RunningExecutor) : Prop :=
  (s.cycle = .idle ∨ s.cycle.Threw) ∧ ∀ tgid g, s.groups tgid = some g → g.spinning = false

/-- Every worker group whose destructor has begun has joined its threads. -/
def ExecutorState.joined (e : ExecutorState) (s : RunningExecutor) : Bool :=
  e.threadGroupIdWorkerMap.keys.all fun tgid =>
    (s.groups tgid).all fun g => !g.destroyed || g.threads.all Worker.isExited

/-- The destructor of the executor, and the threads that are still there. -/
def ExecutorState.shutdown (e : ExecutorState) : Transition RunningExecutor SystemLabel where
  Init s := e.system.Reachable s ∧ s.LeftSpin
  step s
    | .worker tgid i action => e.systemStep s (.worker tgid i action)
    | .destroy tgid => if e.joined s then e.systemStep s (.destroy tgid) else none
    | _ => none

/-- The steps of the destructor and of all threads, at most. -/
def RunningExecutor.workToEnd (s : RunningExecutor) (e : ExecutorState) : Nat :=
  s.sumGroups e WorkerGroup.workToEnd

/-- The executor on its way from the state in which `spin` had left. -/
structure ShuttingDown (e : ExecutorState) (before s : RunningExecutor) : Prop where
  groups : ∀ tgid g, s.groups tgid = some g → tgid ∈ e.threadGroupIdWorkerMap ∧ g.Leaving ∧
    ∃ g₀, before.groups tgid = some g₀ ∧ g.enqueued = g₀.enqueued ∧ g₀.started <+: g.started ∧
      g.willStart = g₀.willStart
  present : ∀ tgid, (s.groups tgid).isSome = (before.groups tgid).isSome
  attended : Attended s
  outside : s.cycle = .idle ∨ s.cycle.Threw

/-- The worker groups are gone: what has become of each. -/
def RunningExecutor.Gone (before s : RunningExecutor) : Prop :=
  ∀ tgid g₀, before.groups tgid = some g₀ → ∃ g, s.groups tgid = some g ∧ g.Gone ∧
    g.enqueued = g₀.enqueued ∧ g₀.started.Subperm g.finished ∧
    g.finished.length = g₀.started.length + g₀.threads.countP Worker.isCommitted

section Step

variable {e : ExecutorState} {before s s' : RunningExecutor}

/-- In the shutdown one worker group at a time makes a step. -/
theorem shutdown_step_cases {label : SystemLabel} (stepped : e.shutdown.step s label = some s') :
    e.systemStep s label = some s' ∧ ∃ tgid g g' groupLabel, s.groups tgid = some g ∧
      g.step groupLabel = some g' ∧ s' = s.put tgid g' s.cycle ∧ groupLabel.Leaves ∧
        ∀ moves, label.Moves moves → moves.Leaves := by
  cases label with
  | worker tgid i action =>
      have performs : e.systemStep s (.worker tgid i action) = some s' := stepped
      cases systemStep_performs performs with
      | @worker _ _ _ g g' found moves =>
          refine ⟨stepped, tgid, g, g', .worker i action, found, moves, rfl, trivial, ?_⟩
          rintro (_ | _ | _ | _ | _ | _ | _ | _) moves <;> trivial
  | destroy tgid =>
      simp only [ExecutorState.shutdown] at stepped
      split at stepped
      · cases systemStep_performs stepped with
        | @destroy _ g g' outside found moves =>
            refine ⟨stepped, tgid, g, g', .destroy, found, moves, rfl, trivial, ?_⟩
            rintro (_ | _ | _ | _ | _ | _ | _ | _) moves <;> trivial
      · cases stepped
  | _ => cases stepped

theorem ShuttingDown.step {label : SystemLabel} (down : ShuttingDown e before s)
    (stepped : e.shutdown.step s label = some s') :
    ShuttingDown e before s' ∧ s'.workToEnd e < s.workToEnd e := by
  obtain ⟨systemStepped, tgid, g₁, g₂, groupLabel, at_, moved, isPut, leaves, moves⟩ := shutdown_step_cases stepped
  have less : s'.workToEnd e < s.workToEnd e := by
    obtain ⟨present, leaving, -⟩ := down.groups tgid g₁ at_
    have lowers := (leaving.step leaves moved).2.2.2.2
    have sums := sumGroups_put g₂ s.cycle WorkerGroup.workToEnd present at_
    rw [isPut]
    show (s.put tgid g₂ s.cycle).sumGroups e WorkerGroup.workToEnd < s.sumGroups e WorkerGroup.workToEnd
    omega
  refine ⟨⟨fun tgid' g' at_ => ?_, fun tgid' => ?_, down.attended.step systemStepped, ?_⟩, less⟩
  · obtain ⟨g, found, same | ⟨groupLabel', here, stepped'⟩⟩ := systemStep_groups systemStepped at_
    · subst same
      exact down.groups tgid' g' found
    · obtain ⟨present, leaving, g₀, first, enqueued, began, willStart⟩ := down.groups tgid' g found
      obtain ⟨leaving', willStart', began', enqueued', -⟩ := leaving.step (moves _ here) stepped'
      exact ⟨present, leaving', g₀, first, enqueued'.trans enqueued, began.trans began',
        willStart'.trans willStart⟩
  · rw [systemStep_present systemStepped, down.present]
  · rw [isPut]
    exact down.outside

theorem shutdown_lowers (e : ExecutorState) (before : RunningExecutor) :
    e.shutdown.Lowers (fun _ => True) (ShuttingDown e before) fun s => s.workToEnd e where
  keeps _ _ _ down _ stepped := (down.step stepped).1
  lowers _ _ _ down _ stepped := (down.step stepped).2

theorem joined_iff : e.joined s = true ↔ ∀ tgid ∈ e.threadGroupIdWorkerMap, ∀ g, s.groups tgid = some g →
    g.destroyed = true → ∀ w ∈ g.threads, w = .exited := by
  have isExited : ∀ w : Worker BundledExecutable, w.isExited = true ↔ w = .exited := by
    intro w
    cases w <;> simp [Worker.isExited]
  simp only [ExecutorState.joined, List.all_eq_true, Option.all_eq_true, Bool.or_eq_true, Bool.not_eq_true',
    isExited, AList.mem_keys]
  refine forall₄_congr fun tgid _ g _ => ?_
  cases g.destroyed with
  | false => exact ⟨fun _ destroyed => absurd destroyed Bool.false_ne_true, fun _ => Or.inl rfl⟩
  | true => exact ⟨fun h _ => h.resolve_left Bool.noConfusion, fun h => Or.inr (h rfl)⟩

/-- **When nothing more happens, the worker groups are gone.** -/
theorem ShuttingDown.gone (down : ShuttingDown e before s) (rest : e.shutdown.AtRest (fun _ => True) s) :
    before.Gone s := by
  have stuck : ∀ tgid g, s.groups tgid = some g → ∀ i action, g.step (.worker i action) = none := by
    intro tgid g at_ i action
    refine Option.eq_none_iff_forall_ne_some.2 fun g' moves => ?_
    have none_ : e.systemStep s (.worker tgid i action) = none := rest (.worker tgid i action) trivial
    rw [ExecutorState.Performs.systemStep (.worker at_ moves)] at none_
    cases none_
  have joined : e.joined s = true := joined_iff.2 fun tgid _ g at_ destroyed =>
    (down.groups tgid g at_).2.1.exited destroyed (stuck tgid g at_)
  intro tgid g₀ first
  have isSome : (s.groups tgid).isSome = true := by rw [down.present, first]; rfl
  obtain ⟨g, at_⟩ := Option.isSome_iff_exists.1 isSome
  obtain ⟨-, leaving, g₀', first', enqueued, began, willStart⟩ := down.groups tgid g at_
  rw [first] at first'
  cases first'
  have destroyed : g.destroyed = true := by
    by_contra alive
    have alive := Bool.eq_false_iff.2 alive
    have stopped : g.dispatcher.stopped = true := by
      by_contra busy
      obtain ⟨rest', handing⟩ := down.attended.busy tgid g at_ (Bool.eq_false_iff.2 busy)
      rcases down.outside with idle | ⟨error, threw⟩
      · rw [idle] at handing
        cases handing
      · rw [threw] at handing
        cases handing
    have destroys : g.step .destroy = some _ := if_pos ⟨leaving.spinning, alive, stopped⟩
    have none_ := rest (.destroy tgid) trivial
    simp only [ExecutorState.shutdown, joined, ↓reduceIte] at none_
    rw [ExecutorState.Performs.systemStep (.destroy down.outside at_ destroys)] at none_
    cases none_
  obtain ⟨gone, all, finished⟩ := leaving.gone destroyed (stuck tgid g at_)
  exact ⟨g, at_, gone, enqueued, began.sublist.subperm.trans all.subperm, finished.trans willStart⟩

end Step

section Left

variable {e : ExecutorState} {final : CallbackRegistry} {timing : TimingExport} {s : RunningExecutor}

/-- In a running executor nothing has thrown inside a worker group, and no token is lost. -/
theorem balanced_running (started : ExecutorState.Started e final timing)
    (reachable : e.system.Reachable s) {tgid : Nat} {g : WorkerGroup BundledExecutable}
    (at_ : s.groups tgid = some g) : g.Balanced := by
  have inv := systemInv_reachable started reachable
  obtain ⟨isMutexGroup, priority, numberOfThreads, -, reached⟩ := (inv.groups tgid g at_).reached
  refine WorkerGroup.balanced_reachable (fun mutex => ?_) reached
  rw [← WorkerGroup.threads_length_reachable reached]
  exact inv.soleMutexThread started at_ (by rw [WorkerGroup.isMutexGroup_reachable reached, mutex])

theorem shuttingDown_left (started : ExecutorState.Started e final timing) (reachable : e.system.Reachable s)
    (left : s.LeftSpin) : ShuttingDown e s s := by
  have inv := systemInv_reachable started reachable
  refine ⟨fun tgid g at_ => ?_, fun _ => rfl, attended_reachable started reachable, left.1⟩
  obtain ⟨isMutexGroup, priority, numberOfThreads, spawned, reached⟩ := (inv.groups tgid g at_).reached
  have present : tgid ∈ e.threadGroupIdWorkerMap := UnorderedMap.mem_iff_lookup.2 ⟨_, spawned⟩
  exact ⟨present, ⟨WorkerGroup.tokensCovered_reachable reached, balanced_running started reachable at_,
    inv.soleMutexThread started at_, WorkerGroup.conserved_reachable reached, left.2 tgid g at_⟩, g, at_, rfl,
    List.prefix_rfl, rfl⟩

end Left

/-- **The worker groups can always be destroyed.**  After a start-up that returned, in every
state in which `spin` has left: however the destructor and the threads are scheduled,
they make at most `workToEnd` steps, there is such a run in which nothing more can
happen, and in every such run the destructors of all worker groups have then joined all
threads.  What each worker group has finished are the bundles that were started before and
one for each thread that had passed the check; the rest of what was enqueued is still
queued. -/
theorem executor_shuts_down {env : Environment} {singleton : Option CallbackRegistry}
    {userChains : List UserChain} {pending weakGroupsToNodes : WeakCallbackGroupsToNodesMap}
    {e : ExecutorState} {registry' : CallbackRegistry}
    (process : ExecutorState.Singleton env singleton pending weakGroupsToNodes)
    (started : (ExecutorState.create userChains pending).startup env singleton = .ok (e, registry')) :
    ∀ s, e.system.Reachable s → s.LeftSpin →
      (∀ labels s', e.shutdown.run s labels = some s' →
        labels.length ≤ s.workToEnd e ∧ (e.shutdown.AtRest (fun _ => True) s' → s.Gone s')) ∧
      ∃ labels s', e.shutdown.run s labels = some s' ∧ e.shutdown.AtRest (fun _ => True) s' := by
  obtain ⟨preRegistered, final, timing, inStep, -⟩ := ExecutorState.startup_started process started
  intro s reachable left
  have down := shuttingDown_left inStep reachable left
  constructor
  · intro labels s' ran
    obtain ⟨down', bound⟩ := (shutdown_lowers e s).run_le down (fun _ _ => trivial) ran
    exact ⟨Nat.le_of_add_right_le bound, down'.gone⟩
  · obtain ⟨labels, s', -, ran, rest⟩ := (shutdown_lowers e s).comes_to_rest down
    exact ⟨labels, s', ran, rest⟩

/-- Told to stop while it goes on, the executor has left when the call is over. -/
theorem SystemGoing.leftSpin {e : ExecutorState} {s : RunningExecutor} (going : SystemGoing e s)
    (idle : s.cycle = .idle) : (s.stepAll (.setSpinning false)).LeftSpin := by
  refine ⟨Or.inl idle, fun tgid g at_ => ?_⟩
  obtain ⟨g₀, found, rfl⟩ := Option.map_eq_some_iff.1 at_
  rw [WorkerGroup.step, if_pos (going.groups tgid g₀ found).2.alive]
  rfl

/-- The sample is told to stop while its worker is in the handler of the subscription: that
bundle is finished, and the timer's stays in the queue. -/
theorem executor_shuts_down_sample :
    ∃ e registry handles s g s₁, SampleRan e registry handles s g ∧
      e.system.step s (.setSpinning false) = some s₁ ∧ s₁.LeftSpin ∧
      ∃ labels s' g', e.shutdown.run s₁ labels = some s' ∧ s₁.Gone s' ∧ s'.groups 1 = some g' ∧
        g'.finished = [.loanedMsgSubscription 11 7] ∧ g'.queued = [.bundledTimer 12] := by
  obtain ⟨e, registry, handles, s, g, sample⟩ := sample_runs
  obtain ⟨preRegistered, final, timing, inStep, -⟩ := ExecutorState.startup_started sample_process sample.started
  have going : SystemGoing e s := systemGoing_reachable inStep
    (Transition.withHistory_reachableWhile (fun _ => SystemLabel.KeepsGoing) sample.keepsGoing)
  have reachable : e.system.Reachable (s.stepAll (.setSpinning false)) :=
    .step (l := .setSpinning false) (Transition.reachableWhile_run (.init rfl) sample.ran) trivial rfl
  have stopped : (s.stepAll (.setSpinning false)).groups 1 = some { g with spinning := false } := by
    show (s.groups 1).map _ = _
    rw [sample.at_, Option.map_some, WorkerGroup.step, if_pos (going.groups 1 g sample.at_).2.alive]
    rfl
  have left := going.leftSpin sample.idle
  obtain ⟨ends, labels, s', ran, rest⟩ := executor_shuts_down sample_process sample.started _ reachable left
  have gone := (ends labels s' ran).2 rest
  obtain ⟨g', at', ⟨-, -, bundles⟩, enqueued, began, finished⟩ := gone 1 _ stopped
  simp only [sample.began, sample.threads, sample.enqueued] at began finished enqueued
  have one : g'.finished = [.loanedMsgSubscription 11 7] :=
    (List.singleton_perm.1 (began.perm_of_length_le (Nat.le_of_eq finished))).symm
  refine ⟨e, registry, handles, s, g, _, sample, rfl, left, labels, s', g', ran, gone, at', one, ?_⟩
  rw [one, enqueued] at bundles
  exact List.perm_singleton.1 ((List.perm_cons _).1 bundles)

end PreemptiveExecutor
