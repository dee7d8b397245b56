/-
# Executor.Spawning — when start-up spawns the worker groups

`spawn_worker_groups` spawns the non-real-time executor first, under the guard
`!non_rt_callback_groups_spawned && !non_rt_callback_groups.empty()`, and its
`else` branch throws "Non-RT executor already spawned".  The guard is false also
if there is nothing for that executor to do: a process all of whose groups are
real-time does not start.

A pending group is real-time if one of its subscriptions or timers has an entry
in the exported handle map; so start-up succeeds exactly if some live pending
group has none (`startup_succeeds_iff`).
-/
import PreemptiveExecutor.Executor.Lookups

namespace PreemptiveExecutor

open Theory

set_option autoImplicit false

/-- A live entry of the pending map that has no real-time subscription or timer. -/
def WeakGroupEntry.nonRt (handles : UnorderedMap Ptr Nat) (entry : WeakGroupEntry) :
    List (CallbackGroup × Ptr) :=
  match entry.group, entry.node with
  | some group, some node => if ExecutorState.hasRt handles group then [] else [(group, node)]
  | _, _ => []

theorem WeakGroupEntry.nonRt_ne_nil {handles : UnorderedMap Ptr Nat} {entry : WeakGroupEntry} :
    entry.nonRt handles ≠ [] ↔ ∃ group node, entry = ⟨some group, some node⟩ ∧
      ∀ ptr ∈ group.dispatched, ptr ∉ handles := by
  obtain ⟨group, node⟩ := entry
  cases group with
  | none => simp [nonRt]
  | some group =>
      cases node with
      | none => simp [nonRt]
      | some node => simp [nonRt, ExecutorState.hasRt]

namespace ExecutorState

/-- `spawn_worker_groups` returns, with one worker group for each exported
threadgroup and none besides. -/
def SpawnsAll (base : BaseExecutor) (e : ExecutorState) : Prop :=
  ∃ e' threadGroups, e.spawnWorkerGroups base = .ok e' ∧ e.threadGroups = some threadGroups ∧
    ∀ id, e'.threadGroupIdWorkerMap.lookup id = (threadGroups.lookup id).map spawnWorkerGroup

/-! ## Classification -/

theorem classifyGroup_nonRt {base : BaseExecutor} {handles : UnorderedMap Ptr Nat} {e e' : ExecutorState}
    {entry : WeakGroupEntry} (classified : classifyGroup base handles e entry = .ok e') :
    e'.nonRtCallbackGroups = e.nonRtCallbackGroups ++ entry.nonRt handles ∧
      e'.nonRtCallbackGroupsSpawned = e.nonRtCallbackGroupsSpawned := by
  obtain ⟨group, node⟩ := entry
  unfold classifyGroup at classified
  cases group with
  | none =>
      cases classified
      simp [WeakGroupEntry.nonRt]
  | some group =>
      cases node with
      | none =>
          cases classified
          simp [WeakGroupEntry.nonRt]
      | some node =>
          simp only at classified
          cases rt : hasRt handles group with
          | false =>
              simp only [rt, Bool.false_and, Bool.false_eq_true, ↓reduceIte] at classified
              cases classified
              simp [WeakGroupEntry.nonRt, rt]
          | true =>
              simp only [rt, Bool.true_and, ↓reduceIte] at classified
              split at classified
              · cases classified
              · split at classified
                · cases classified
                · cases classified
                  simp [WeakGroupEntry.nonRt, rt]

/-- The non-real-time groups are those of the pending map without a real-time
subscription or timer. -/
theorem classifyCallbackGroups_nonRt {base : BaseExecutor} {handles : UnorderedMap Ptr Nat}
    {e e' : ExecutorState} (loaded : e.callbackHandleToThreadgroupId = some handles)
    (classified : e.classifyCallbackGroups base = .ok e') :
    e'.nonRtCallbackGroups =
        e.nonRtCallbackGroups ++ e.pendingWeakGroupsToNodes.flatMap (WeakGroupEntry.nonRt handles) ∧
      e'.nonRtCallbackGroupsSpawned = e.nonRtCallbackGroupsSpawned := by
  unfold classifyCallbackGroups at classified
  simp only [loaded] at classified
  cases ran : e.pendingWeakGroupsToNodes.foldlM (classifyGroup base handles) e with
  | error failed => rw [ran] at classified; cases classified
  | ok s =>
      rw [ran] at classified
      cases classified
      have appended := Loop.foldlM_appends nonRtCallbackGroups (WeakGroupEntry.nonRt handles)
        e.pendingWeakGroupsToNodes (fun s s' entry _ step => (classifyGroup_nonRt step).1) ran
      have kept := Loop.foldlM_ok
        (fun s : ExecutorState => s.nonRtCallbackGroupsSpawned = e.nonRtCallbackGroupsSpawned)
        e.pendingWeakGroupsToNodes (fun s s' entry _ same step => (classifyGroup_nonRt step).2.trans same)
        rfl ran
      exact ⟨appended, kept⟩

/-! ## Spawning -/

/-- The guard of `spawn_worker_groups`, on the executor of a first `spin`. -/
theorem spawnWorkerGroups_returns_iff {base : BaseExecutor} {e : ExecutorState}
    {threadGroups : UnorderedMap Nat ThreadGroupAttributes} (loaded : e.threadGroups = some threadGroups)
    (first : e.nonRtCallbackGroupsSpawned = false)
    (starts : base.startNonRtExecutor e.nonRtCallbackGroups = .ok ()) :
    (∃ e', e.spawnWorkerGroups base = .ok e') ↔ e.nonRtCallbackGroups ≠ [] := by
  unfold spawnWorkerGroups
  rw [loaded, first, starts]
  cases groups : e.nonRtCallbackGroups with
  | nil => simp
  | cons group rest => simp

/-- **Start-up succeeds exactly if some pending group is not real-time**: after a
`load_timing_info` and a `classify_callback_groups` that returned, all exported
threadgroups get their worker group if some live pending group has no
subscription or timer in the handle map, and otherwise `spawn_worker_groups`
throws.  `starts`: `rclcpp` starts the non-real-time executor it is asked for. -/
theorem startup_succeeds_iff {env : Environment} {singleton : Option CallbackRegistry}
    {userChains : List UserChain} {pending weakGroupsToNodes : WeakCallbackGroupsToNodesMap}
    {loaded classified : ExecutorState} {registry' : CallbackRegistry}
    (process : Singleton env singleton pending weakGroupsToNodes)
    (load : (create userChains pending).loadTimingInfo env singleton = .ok (loaded, registry'))
    (classify : loaded.classifyCallbackGroups env.base = .ok classified)
    (starts : env.base.startNonRtExecutor classified.nonRtCallbackGroups = .ok ()) :
    classified.SpawnsAll env.base ↔ ∃ handles group node,
      loaded.callbackHandleToThreadgroupId = some handles ∧ ⟨some group, some node⟩ ∈ pending ∧
        ∀ ptr ∈ group.dispatched, ptr ∉ handles := by
  obtain ⟨registry, timing, inst, allocated, rfl⟩ := loadTimingInfo_ok load
  obtain ⟨preRegistered, chains, instance_⟩ := getInstance_instance process inst
  obtain ⟨final, from_, exports, -⟩ :=
    CallbackRegistry.callbackThreadgroupAllocation_exports instance_.sound.1 allocated
  obtain ⟨handles, isHandles, -, sameGroups, sameWorkers, -⟩ := classifyCallbackGroups_ok classify rfl
  cases isHandles
  obtain ⟨nonRt, spawned⟩ := classifyCallbackGroups_nonRt rfl classify
  have own := exports.tgId from_.sound
  have returns := spawnWorkerGroups_returns_iff (sameGroups : classified.threadGroups = _) spawned starts
  have all : classified.SpawnsAll env.base ↔ ∃ e', classified.spawnWorkerGroups env.base = .ok e' := by
    constructor
    · rintro ⟨e', -, spawn, -⟩
      exact ⟨e', spawn⟩
    · rintro ⟨e', spawn⟩
      exact ⟨e', _, spawn, sameGroups, (spawnWorkerGroups_ok spawn sameGroups sameWorkers own).2.2.2⟩
  rw [all, returns, nonRt]
  change [] ++ pending.flatMap (WeakGroupEntry.nonRt timing.callbackHandleToThreadgroupId) ≠ [] ↔ _
  rw [List.nil_append, Ne, List.flatMap_eq_nil_iff]
  constructor
  · intro some_
    push Not at some_
    obtain ⟨entry, member, nonempty⟩ := some_
    obtain ⟨group, node, rfl, noHandle⟩ := WeakGroupEntry.nonRt_ne_nil.1 nonempty
    exact ⟨_, group, node, rfl, member, noHandle⟩
  · rintro ⟨handles, group, node, isHandles, member, noHandle⟩ none_
    cases isHandles
    exact WeakGroupEntry.nonRt_ne_nil.2 ⟨group, node, rfl, noHandle⟩ (none_ _ member)

end ExecutorState

/-! ### Two start-ups -/

/-- The second group of the sample is not real-time. -/
theorem startup_succeeds_sample :
    ∃ loaded classified registry,
      (ExecutorState.create sampleChains samplePending).loadTimingInfo sampleEnvironment none =
        .ok (loaded, registry) ∧
      loaded.classifyCallbackGroups sampleEnvironment.base = .ok classified ∧
      classified.SpawnsAll sampleEnvironment.base := by
  obtain ⟨⟨loaded, registry⟩, load, runs⟩ := Loop.exists_ok_of_any
    (x := (ExecutorState.create sampleChains samplePending).loadTimingInfo sampleEnvironment none)
    (p := fun result => (result.1.classifyCallbackGroups sampleEnvironment.base).toOption.any fun _ =>
      result.1.callbackHandleToThreadgroupId.any fun handles => decide (21 ∉ handles)) (by decide)
  obtain ⟨classified, classify, handle⟩ := Loop.exists_ok_of_any runs
  obtain ⟨handles, isHandles, absent⟩ := (Option.any_eq_true _ _).1 handle
  refine ⟨loaded, classified, registry, load, classify,
    (ExecutorState.startup_succeeds_iff sample_process load classify rfl).2
      ⟨handles, _, 100, isHandles, List.mem_cons_of_mem _ List.mem_cons_self, fun ptr member => ?_⟩⟩
  obtain rfl : ptr = 21 := by simpa [CallbackGroup.dispatched] using member
  exact of_decide_eq_true absent

/-- **A process whose groups are all real-time does not start.** -/
theorem startup_fails_allRt :
    ∃ loaded classified registry,
      (ExecutorState.create sampleChains [⟨some sampleGroup, some 100⟩]).loadTimingInfo sampleEnvironment
        none = .ok (loaded, registry) ∧
      loaded.classifyCallbackGroups sampleEnvironment.base = .ok classified ∧
      classified.spawnWorkerGroups sampleEnvironment.base =
        .error ⟨.runtimeError "Non-RT executor already spawned", classified⟩ ∧
      ¬ classified.SpawnsAll sampleEnvironment.base := by
  obtain ⟨⟨loaded, registry⟩, load, runs⟩ := Loop.exists_ok_of_any
    (x := (ExecutorState.create sampleChains [⟨some sampleGroup, some 100⟩]).loadTimingInfo
      sampleEnvironment none)
    (p := fun result => (result.1.classifyCallbackGroups sampleEnvironment.base).toOption.any
      fun classified => classified.nonRtCallbackGroups.isEmpty) (by decide)
  obtain ⟨classified, classify, nobody⟩ := Loop.exists_ok_of_any runs
  have throws : classified.spawnWorkerGroups sampleEnvironment.base =
      .error ⟨.runtimeError "Non-RT executor already spawned", classified⟩ := by
    unfold ExecutorState.spawnWorkerGroups
    rw [if_neg (by rw [nobody]; simp)]
  refine ⟨loaded, classified, registry, load, classify, throws, ?_⟩
  rintro ⟨e', -, spawned, -⟩
  rw [throws] at spawned
  cases spawned

end PreemptiveExecutor
