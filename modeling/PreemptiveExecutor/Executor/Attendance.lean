/-
# Executor.Attendance — where the dispatcher is

In a step of the running executor each worker group makes one step of its own system,
or none (`systemStep_groups`).  The dispatcher is inside a batch of the threadgroup
that its cycle names and of no other (`Attended`); so between two calls of
`populate_ready_queues` it is outside all worker groups, before shutdown and in it.
-/
import PreemptiveExecutor.Executor.SystemSteps

namespace PreemptiveExecutor

open Theory

set_option autoImplicit false

/-- The step that a worker group makes in a step of the executor. -/
def SystemLabel.Moves : SystemLabel → WorkerGroup.Label BundledExecutable → Prop
  | .nextBatch _, .enqueueBulk _ => True
  | .fetchAdd, .fetchAdd => True
  | .updatePrio, .dispatcherUpdatePrio => True
  | .release, .release => True
  | .worker _ i action, .worker i' action' => i' = i ∧ action' = action
  | .setOk ok, .setOk ok' => ok' = ok
  | .setSpinning spinning, .setSpinning spinning' => spinning' = spinning
  | .destroy _, .destroy => True
  | _, _ => False

/-- The dispatcher is inside the batch of the threadgroup. -/
def RunningExecutor.Handing (s : RunningExecutor) (tgid : Nat) : Prop := ∃ rest, s.cycle = .handing tgid rest

/-- The dispatcher is inside the worker group that the cycle names, and in no other. -/
structure Attended (s : RunningExecutor) : Prop where
  busy : ∀ tgid g, s.groups tgid = some g → g.dispatcher.stopped = false → s.Handing tgid
  handing : ∀ tgid, s.Handing tgid → ∃ g, s.groups tgid = some g ∧ g.dispatcher.stopped = false

section Groups

variable {e : ExecutorState} {s s' : RunningExecutor}

theorem put_groups {tgid tgid' : Nat} {g₁ g' : WorkerGroup BundledExecutable} {cycle : Cycle}
    (at_ : (s.put tgid g₁ cycle).groups tgid' = some g') :
    (tgid' = tgid ∧ g' = g₁) ∨ (tgid' ≠ tgid ∧ s.groups tgid' = some g') := by
  by_cases same : tgid' = tgid
  · subst same
    rw [put_self] at at_
    exact Or.inl ⟨rfl, (Option.some.inj at_).symm⟩
  · rw [put_of_ne same] at at_
    exact Or.inr ⟨same, at_⟩

theorem stepAll_groups {label : WorkerGroup.Label BundledExecutable} {tgid : Nat}
    {g' : WorkerGroup BundledExecutable} (at_ : (s.stepAll label).groups tgid = some g') :
    ∃ g, s.groups tgid = some g ∧ (g' = g ∨ g.step label = some g') := by
  obtain ⟨g, found, rfl⟩ := Option.map_eq_some_iff.1 at_
  refine ⟨g, found, ?_⟩
  cases g.step label with
  | none => exact Or.inl rfl
  | some g' => exact Or.inr rfl

/-- **Each worker group makes one step of its own, or none.** -/
theorem systemStep_groups {label : SystemLabel} (stepped : e.systemStep s label = some s') {tgid : Nat}
    {g' : WorkerGroup BundledExecutable} (at_ : s'.groups tgid = some g') :
    ∃ g, s.groups tgid = some g ∧
      (g' = g ∨ ∃ groupLabel, label.Moves groupLabel ∧ g.step groupLabel = some g') := by
  have one : ∀ {tgid' : Nat} {groupLabel : WorkerGroup.Label BundledExecutable}
      {g g₁ : WorkerGroup BundledExecutable} {cycle : Cycle}, s.groups tgid' = some g →
      g.step groupLabel = some g₁ → (s.put tgid' g₁ cycle).groups tgid = some g' → label.Moves groupLabel →
        ∃ g, s.groups tgid = some g ∧
          (g' = g ∨ ∃ groupLabel, label.Moves groupLabel ∧ g.step groupLabel = some g') := by
    intro tgid' groupLabel g g₁ cycle found stepped here moves
    rcases put_groups here with ⟨rfl, rfl⟩ | ⟨-, kept⟩
    · exact ⟨g, found, Or.inr ⟨groupLabel, moves, stepped⟩⟩
    · exact ⟨g', kept, Or.inl rfl⟩
  have all : ∀ {groupLabel : WorkerGroup.Label BundledExecutable},
      (s.stepAll groupLabel).groups tgid = some g' → label.Moves groupLabel →
        ∃ g, s.groups tgid = some g ∧
          (g' = g ∨ ∃ groupLabel, label.Moves groupLabel ∧ g.step groupLabel = some g') := by
    intro groupLabel here moves
    obtain ⟨g, found, same | stepped⟩ := stepAll_groups here
    · exact ⟨g, found, Or.inl same⟩
    · exact ⟨g, found, Or.inr ⟨groupLabel, moves, stepped⟩⟩
  cases systemStep_performs stepped with
  | nobody | threw | collected | drained | skipped | unknown | outOfMemory => exact ⟨g', at_, Or.inl rfl⟩
  | handed _ _ found moves => exact one found moves at_ trivial
  | fetchAdd _ found moves => exact one found moves at_ trivial
  | updatePrio _ found moves => exact one found moves at_ trivial
  | updatePrioThrew _ found moves => exact one found moves at_ trivial
  | release _ found moves => exact one found moves at_ trivial
  | worker found moves => exact one found moves at_ ⟨rfl, rfl⟩
  | setOk => exact all at_ rfl
  | setSpinning => exact all at_ rfl
  | destroy _ found moves => exact one found moves at_ trivial

/-- No worker group comes or goes. -/
theorem systemStep_present {label : SystemLabel} (stepped : e.systemStep s label = some s') (tgid : Nat) :
    (s'.groups tgid).isSome = (s.groups tgid).isSome := by
  have one : ∀ {tgid' : Nat} {g g' : WorkerGroup BundledExecutable} {cycle : Cycle}, s.groups tgid' = some g →
      ((s.put tgid' g' cycle).groups tgid).isSome = (s.groups tgid).isSome := by
    intro tgid' g g' cycle found
    by_cases same : tgid = tgid'
    · subst same
      rw [put_self, found]
      rfl
    · rw [put_of_ne same]
  cases systemStep_performs stepped with
  | nobody | threw | collected | drained | skipped | unknown | outOfMemory => rfl
  | handed _ _ found => exact one found
  | fetchAdd _ found => exact one found
  | updatePrio _ found => exact one found
  | updatePrioThrew _ found => exact one found
  | release _ found => exact one found
  | worker found => exact one found
  | setOk => exact Option.isSome_map
  | setSpinning => exact Option.isSome_map
  | destroy _ found => exact one found

end Groups

/-! ## One batch at a time -/

section Attended

variable {e : ExecutorState} {s s' : RunningExecutor}

theorem dispatcherAfter_stopped (n : Nat) (result : WorkerGroup.UpdatePrioResult) :
    (WorkerGroup.dispatcherAfter n result).stopped = true ↔
      ∃ what, WorkerGroup.dispatcherAfter n result = .threw what := by
  cases result with
  | inside point => simp [WorkerGroup.dispatcherAfter, Dispatcher.stopped]
  | returned => simp [WorkerGroup.dispatcherAfter, Dispatcher.stopped]
  | threw what => exact ⟨fun _ => ⟨what, rfl⟩, fun _ => rfl⟩

/-- A step of one worker group, after which the dispatcher is inside it or not, as the
new cycle says. -/
theorem Attended.moved {tgid : Nat} {g' : WorkerGroup BundledExecutable} {cycle : Cycle} (attended : Attended s)
    (here : g'.dispatcher.stopped = false ↔ ∃ rest, cycle = .handing tgid rest)
    (elsewhere : ∀ tgid', tgid' ≠ tgid → ((∃ rest, cycle = .handing tgid' rest) ↔ s.Handing tgid')) :
    Attended (s.put tgid g' cycle) := by
  refine ⟨fun tgid' g₁ found busy => ?_, fun tgid' handing => ?_⟩
  · rcases put_groups found with ⟨rfl, rfl⟩ | ⟨other, kept⟩
    · exact here.1 busy
    · exact (elsewhere tgid' other).2 (attended.busy tgid' g₁ kept busy)
  · by_cases same : tgid' = tgid
    · subst same
      exact ⟨g', put_self, here.2 handing⟩
    · rw [put_of_ne same]
      exact attended.handing tgid' ((elsewhere tgid' same).1 handing)

/-- The dispatcher goes on outside all worker groups. -/
theorem Attended.outside {cycle : Cycle} (attended : Attended s) (before : ∀ tgid, ¬ s.Handing tgid)
    (after : ∀ tgid rest, cycle ≠ .handing tgid rest) : Attended { s with cycle } where
  busy tgid g at_ busy := absurd (attended.busy tgid g at_ busy) (before tgid)
  handing tgid handing := by
    obtain ⟨rest, same⟩ := handing
    exact absurd same (after tgid rest)

/-- A step of one worker group that leaves its dispatcher alone. -/
theorem Attended.put {tgid : Nat} {g g' : WorkerGroup BundledExecutable} (attended : Attended s)
    (found : s.groups tgid = some g) (quiet : g'.dispatcher = g.dispatcher) :
    Attended (s.put tgid g' s.cycle) := by
  refine attended.moved ?_ fun _ _ => Iff.rfl
  rw [quiet]
  refine ⟨attended.busy tgid g found, fun handing => ?_⟩
  obtain ⟨g₁, found', busy⟩ := attended.handing tgid handing
  rw [found] at found'
  cases found'
  exact busy

theorem Attended.stepAll {label : WorkerGroup.Label BundledExecutable} (attended : Attended s)
    (quiet : ∀ {g g' : WorkerGroup BundledExecutable}, g.step label = some g' → g'.dispatcher = g.dispatcher) :
    Attended (s.stepAll label) := by
  have same : ∀ g : WorkerGroup BundledExecutable, ((g.step label).getD g).dispatcher = g.dispatcher := by
    intro g
    cases stepped : g.step label with
    | none => rfl
    | some g' => exact quiet stepped
  refine ⟨fun tgid g' found busy => ?_, fun tgid handing => ?_⟩
  · obtain ⟨g, at_, rfl⟩ := Option.map_eq_some_iff.1 found
    rw [same] at busy
    exact attended.busy tgid g at_ busy
  · obtain ⟨g, at_, busy⟩ := attended.handing tgid handing
    refine ⟨(g.step label).getD g, Option.map_eq_some_iff.2 ⟨g, at_, rfl⟩, ?_⟩
    rw [same]
    exact busy

theorem step_dispatcher_worker {g g' : WorkerGroup BundledExecutable} {i : Nat} {action : WorkerGroup.WorkerAction}
    (stepped : g.step (.worker i action) = some g') : g'.dispatcher = g.dispatcher := by
  obtain ⟨w, w', g₁, -, -, effect, rfl⟩ := WorkerGroup.step_worker stepped
  exact effect.frame.2.1

theorem step_dispatcher_destroy {g g' : WorkerGroup BundledExecutable} (stepped : g.step .destroy = some g') :
    g'.dispatcher = g.dispatcher := by
  simp only [WorkerGroup.step] at stepped
  split at stepped
  · cases stepped; rfl
  · cases stepped

/-- **A step keeps the dispatcher inside the batch it is handing over.** -/
theorem Attended.step {label : SystemLabel} (attended : Attended s) (stepped : e.systemStep s label = some s') :
    Attended s' := by
  have idle : s.cycle = .idle → ∀ tgid, ¬ s.Handing tgid := by
    rintro isIdle tgid ⟨rest, same⟩
    rw [isIdle] at same
    cases same
  have dispatching : ∀ {pending}, s.cycle = .dispatching pending → ∀ tgid, ¬ s.Handing tgid := by
    rintro pending at_ tgid ⟨rest, same⟩
    rw [at_] at same
    cases same
  have only : ∀ {tgid rest tgid'}, s.cycle = .handing tgid rest → tgid' ≠ tgid → ¬ s.Handing tgid' := by
    rintro tgid rest tgid' at_ other ⟨rest', same⟩
    rw [at_] at same
    cases same
    exact other rfl
  cases systemStep_performs stepped with
  | nobody => exact attended
  | threw isIdle | collected isIdle => exact attended.outside (idle isIdle) (by rintro _ _ ⟨⟩)
  | drained at_ => exact attended.outside (dispatching at_) (by rintro _ _ ⟨⟩)
  | skipped at_ => exact attended.outside (dispatching at_) (by rintro _ _ ⟨⟩)
  | unknown at_ => exact attended.outside (dispatching at_) (by rintro _ _ ⟨⟩)
  | outOfMemory at_ => exact attended.outside (dispatching at_) (by rintro _ _ ⟨⟩)
  | @handed tgid bundles rest g g' at_ _ found moves =>
      obtain ⟨-, rfl⟩ := WorkerGroup.step_enqueueBulk moves
      refine attended.moved ⟨fun _ => ⟨rest, rfl⟩, fun _ => rfl⟩ fun tgid' other => ⟨?_, ?_⟩
      · rintro ⟨rest', ⟨⟩⟩
        exact absurd rfl other
      · exact fun handing => absurd handing (dispatching at_ tgid')
  | @fetchAdd tgid rest g g' at_ found moves =>
      obtain ⟨n, -, rfl⟩ := WorkerGroup.step_fetchAdd moves
      refine attended.moved ⟨fun _ => ⟨rest, at_⟩, fun _ => ?_⟩ fun _ _ => Iff.rfl
      show (WorkerGroup.dispatcherAfter n g.callUpdatePrio).stopped = false
      unfold WorkerGroup.callUpdatePrio
      split <;> rfl
  | @updatePrio tgid rest g g' at_ found moves returned =>
      obtain ⟨n, point, -, rfl⟩ := WorkerGroup.step_dispatcherUpdatePrio moves
      refine attended.moved ⟨fun _ => ⟨rest, at_⟩, fun _ => ?_⟩ fun _ _ => Iff.rfl
      refine Bool.eq_false_iff.2 fun stopped => ?_
      obtain ⟨what, threw⟩ := (dispatcherAfter_stopped n _).1 stopped
      exact returned what threw
  | updatePrioThrew at_ found moves threw =>
      -- the exception takes the dispatcher out of the batch
      refine attended.moved ⟨fun busy => ?_, by rintro ⟨_, ⟨⟩⟩⟩ fun tgid' other => ⟨by rintro ⟨_, ⟨⟩⟩, ?_⟩
      · rw [threw] at busy
        cases busy
      · exact fun handing => absurd handing (only at_ other)
  | release at_ found moves =>
      obtain ⟨n, -, rfl⟩ := WorkerGroup.step_release moves
      refine attended.moved ⟨fun busy => (by cases busy), by rintro ⟨_, ⟨⟩⟩⟩ fun tgid' other => ⟨by rintro ⟨_, ⟨⟩⟩, ?_⟩
      exact fun handing => absurd handing (only at_ other)
  | worker found moves => exact attended.put found (step_dispatcher_worker moves)
  | setOk => exact attended.stepAll fun moves => by cases moves; rfl
  | setSpinning =>
      refine attended.stepAll fun moves => ?_
      obtain ⟨-, rfl⟩ := WorkerGroup.step_setSpinning moves
      rfl
  | destroy _ found moves => exact attended.put found (step_dispatcher_destroy moves)

theorem attended_running {final : CallbackRegistry} {timing : TimingExport}
    (started : ExecutorState.Started e final timing) : Attended e.running := by
  refine ⟨fun tgid g at_ busy => ?_, by rintro tgid ⟨rest, ⟨⟩⟩⟩
  have spawned : e.threadGroupIdWorkerMap.lookup tgid = some g := at_
  rw [started.workers] at spawned
  obtain ⟨threadGroup, -, rfl⟩ := Option.map_eq_some_iff.1 spawned
  rw [ExecutorState.spawnWorkerGroup_eq] at busy
  cases busy

theorem attended_reachable {final : CallbackRegistry} {timing : TimingExport}
    (started : ExecutorState.Started e final timing) (reachable : e.system.Reachable s) : Attended s := by
  refine Transition.invariant (T := e.system) Attended ?_ (fun _ _ _ attended _ => attended.step) reachable
  rintro s rfl
  exact attended_running started

end Attended

end PreemptiveExecutor
