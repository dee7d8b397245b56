/-
# Executor.Lookups — the dispatch path finds what it looks up

Start-up keeps four maps in step: the callbacks and threadgroups of the registry,
the two exported maps, and the worker map.  `Started` says how they hang together
once start-up has returned; `classifyGroup` lets a group into
`weak_groups_to_nodes_` only if all its subscriptions and timers have a handle
entry, so every lookup on the dispatch path succeeds.
-/
import PreemptiveExecutor.Theory.Loop
import PreemptiveExecutor.Executor.Populate

namespace PreemptiveExecutor

open Theory

set_option autoImplicit false

namespace ExecutorState

/-! ## After start-up -/

/-- The executor after start-up, and the registry its maps were exported from. -/
structure Started (e : ExecutorState) (final : CallbackRegistry) (timing : TimingExport) : Prop where
  sound : final.Sound
  exports : final.Exports timing
  handles : e.callbackHandleToThreadgroupId = some timing.callbackHandleToThreadgroupId
  threadGroups : e.threadGroups = some timing.threadgroupAttributes
  workers : ∀ id, e.threadGroupIdWorkerMap.lookup id =
    (timing.threadgroupAttributes.lookup id).map spawnWorkerGroup
  classified : ∀ entry ∈ e.weakGroupsToNodes, ∀ group, entry.group = some group →
    ∀ ptr ∈ group.dispatched, ptr ∈ timing.callbackHandleToThreadgroupId

/-- A group that is placed has all of its dispatched entities in the map. -/
theorem classifyGroup_ok {base : BaseExecutor} {handles : UnorderedMap Ptr Nat} {e e' : ExecutorState}
    {entry : WeakGroupEntry} (classified : classifyGroup base handles e entry = .ok e') :
    e'.callbackHandleToThreadgroupId = e.callbackHandleToThreadgroupId ∧
      e'.threadGroups = e.threadGroups ∧ e'.threadGroupIdWorkerMap = e.threadGroupIdWorkerMap ∧
      ∀ placed ∈ e'.weakGroupsToNodes, placed ∈ e.weakGroupsToNodes ∨
        ∃ group node, placed = ⟨some group, some node⟩ ∧ ∀ ptr ∈ group.dispatched, ptr ∈ handles := by
  unfold classifyGroup at classified
  split at classified
  · rename_i group node _ _
    split at classified
    · cases classified
    · rename_i unmixed
      split at classified
      · rename_i rt
        split at classified
        · cases classified
        · rename_i weakGroupsToNodes added
          cases classified
          refine ⟨rfl, rfl, rfl, fun placed member => ?_⟩
          rcases (base.adds _ _ _ _ added placed).1 member with rfl | old
          · refine Or.inr ⟨group, node, rfl, fun ptr dispatched => ?_⟩
            by_contra absent
            apply unmixed
            rw [Bool.and_eq_true]
            exact ⟨rt, List.any_eq_true.2 ⟨ptr, dispatched, by simpa using absent⟩⟩
          · exact Or.inl old
      · cases classified
        exact ⟨rfl, rfl, rfl, fun placed member => Or.inl member⟩
  · cases classified
    exact ⟨rfl, rfl, rfl, fun placed member => Or.inl member⟩

theorem classifyCallbackGroups_ok {base : BaseExecutor} {e e' : ExecutorState}
    (classified : e.classifyCallbackGroups base = .ok e') (fresh : e.weakGroupsToNodes = []) :
    ∃ handles, e.callbackHandleToThreadgroupId = some handles ∧
      e'.callbackHandleToThreadgroupId = some handles ∧ e'.threadGroups = e.threadGroups ∧
      e'.threadGroupIdWorkerMap = e.threadGroupIdWorkerMap ∧
      ∀ entry ∈ e'.weakGroupsToNodes, ∀ group, entry.group = some group →
        ∀ ptr ∈ group.dispatched, ptr ∈ handles := by
  unfold classifyCallbackGroups at classified
  cases loaded : e.callbackHandleToThreadgroupId with
  | none => rw [loaded] at classified; cases classified
  | some handles =>
      rw [loaded] at classified
      refine ⟨handles, rfl, ?_⟩
      cases ran : e.pendingWeakGroupsToNodes.foldlM (classifyGroup base handles) e with
      | error failed => simp only [ran] at classified; cases classified
      | ok s =>
          simp only [ran] at classified
          cases classified
          have kept := Loop.foldlM_ok
            (fun s : ExecutorState => s.callbackHandleToThreadgroupId = some handles ∧
              s.threadGroups = e.threadGroups ∧ s.threadGroupIdWorkerMap = e.threadGroupIdWorkerMap ∧
              ∀ entry ∈ s.weakGroupsToNodes, ∀ group, entry.group = some group →
                ∀ ptr ∈ group.dispatched, ptr ∈ handles)
            e.pendingWeakGroupsToNodes
            (fun s s' entry _ ⟨sameHandles, sameGroups, sameWorkers, placed⟩ step => by
              obtain ⟨h₁, h₂, h₃, new⟩ := classifyGroup_ok step
              refine ⟨h₁.trans sameHandles, h₂.trans sameGroups, h₃.trans sameWorkers, ?_⟩
              intro placed' member group isGroup ptr at_
              rcases new placed' member with old | ⟨group', node, rfl, all⟩
              · exact placed placed' old group isGroup ptr at_
              · cases isGroup
                exact all ptr at_)
            ⟨loaded, rfl, rfl, by rw [fresh]; exact fun _ member => nomatch member⟩ ran
          exact kept

/-- The worker map has the exported threadgroups, each as its constructor leaves it. -/
theorem spawnWorkerGroups_ok {base : BaseExecutor} {e e' : ExecutorState}
    {threadGroups : UnorderedMap Nat ThreadGroupAttributes} (spawned : e.spawnWorkerGroups base = .ok e') 
    (loaded : e.threadGroups = some threadGroups) (fresh : e.threadGroupIdWorkerMap = ∅)
    (own : ∀ id attributes, threadGroups.lookup id = some attributes → attributes.tgId = id) :
    e'.callbackHandleToThreadgroupId = e.callbackHandleToThreadgroupId ∧ e'.threadGroups = e.threadGroups ∧
      e'.weakGroupsToNodes = e.weakGroupsToNodes ∧
      ∀ id, e'.threadGroupIdWorkerMap.lookup id = (threadGroups.lookup id).map spawnWorkerGroup := by
  unfold spawnWorkerGroups at spawned
  split at spawned
  · rw [loaded] at spawned
    split at spawned
    · cases spawned
    · cases spawned
      refine ⟨rfl, loaded.symm, rfl, fun id => ?_⟩
      rw [fresh]
      exact UnorderedMap.lookup_emplace_entries threadGroups ThreadGroupAttributes.tgId spawnWorkerGroup own id
  · cases spawned

theorem loadTimingInfo_ok {env : Environment} {singleton : Option CallbackRegistry} {e e' : ExecutorState}
    {registry' : CallbackRegistry} (loaded : e.loadTimingInfo env singleton = .ok (e', registry')) :
    ∃ registry timing, e.getInstance env singleton = .ok registry ∧
      registry.callbackThreadgroupAllocation env.order env.stack = .ok (timing, registry') ∧
      e' = { e with
        callbackHandleToThreadgroupId := some timing.callbackHandleToThreadgroupId
        threadGroups := some timing.threadgroupAttributes } := by
  unfold loadTimingInfo at loaded
  cases inst : e.getInstance env singleton with
  | error error => rw [inst] at loaded; cases loaded
  | ok registry =>
      simp only [inst] at loaded
      cases allocated : registry.callbackThreadgroupAllocation env.order env.stack with
      | error thrown => simp only [allocated] at loaded; cases loaded
      | ok result =>
          simp only [allocated] at loaded
          cases loaded
          exact ⟨registry, result.1, rfl, allocated, rfl⟩

/-- The three stages of a start-up that returns. -/
theorem startup_ok {env : Environment} {singleton : Option CallbackRegistry} {e e' : ExecutorState}
    {registry' : CallbackRegistry} (started : e.startup env singleton = .ok (e', registry')) :
    ∃ loaded classified, e.loadTimingInfo env singleton = .ok (loaded, registry') ∧
      loaded.classifyCallbackGroups env.base = .ok classified ∧ classified.spawnWorkerGroups env.base = .ok e' := by
  unfold startup at started
  cases load : e.loadTimingInfo env singleton with
  | error error => rw [load] at started; cases started
  | ok result =>
      obtain ⟨loaded, registry⟩ := result
      simp only [load] at started
      cases classify : loaded.classifyCallbackGroups env.base with
      | error failed => simp only [classify] at started; cases started
      | ok classified =>
          simp only [classify] at started
          cases spawn : classified.spawnWorkerGroups env.base with
          | error failed => simp only [spawn] at started; cases started
          | ok spawned =>
              simp only [spawn] at started
              cases started
              exact ⟨loaded, classified, rfl, classify, spawn⟩

/-- The instance a start-up works on: the one constructed from `weakGroupsToNodes`
by an earlier call, or a new one. -/
structure Singleton (env : Environment) (singleton : Option CallbackRegistry)
    (pending weakGroupsToNodes : WeakCallbackGroupsToNodesMap) : Prop where
  new : singleton = none → weakGroupsToNodes = pending
  existing : ∀ registry, singleton = some registry →
    ∃ preRegistered userChains,
      CallbackRegistry.Instance preRegistered weakGroupsToNodes userChains registry

theorem getInstance_instance {env : Environment} {singleton : Option CallbackRegistry}
    {userChains : List UserChain} {pending weakGroupsToNodes : WeakCallbackGroupsToNodesMap}
    {registry : CallbackRegistry} (process : Singleton env singleton pending weakGroupsToNodes)
    (inst : (create userChains pending).getInstance env singleton = .ok registry) :
    ∃ preRegistered userChains,
      CallbackRegistry.Instance preRegistered weakGroupsToNodes userChains registry := by
  unfold getInstance at inst
  cases singleton with
  | none =>
      rw [process.new rfl]
      exact ⟨env.preRegistered, userChains, .constructed inst⟩
  | some registry' =>
      cases inst
      exact process.existing _ rfl

/-- **Start-up leaves its maps in step**, whatever calls the process made before. -/
theorem startup_started {env : Environment} {singleton : Option CallbackRegistry}
    {userChains : List UserChain} {pending weakGroupsToNodes : WeakCallbackGroupsToNodesMap}
    {e : ExecutorState} {registry' : CallbackRegistry}
    (process : Singleton env singleton pending weakGroupsToNodes)
    (started : (create userChains pending).startup env singleton = .ok (e, registry')) :
    ∃ preRegistered final timing, Started e final timing ∧
      final.Scanned preRegistered weakGroupsToNodes := by
  obtain ⟨loaded, classified, load, classify, spawn⟩ := startup_ok started
  obtain ⟨registry, timing, inst, allocated, rfl⟩ := loadTimingInfo_ok load
  obtain ⟨preRegistered, chains, instance_⟩ := getInstance_instance process inst
  obtain ⟨sound, scanned⟩ := instance_.sound
  obtain ⟨final, from_, exports, -⟩ := CallbackRegistry.callbackThreadgroupAllocation_exports sound allocated
  obtain ⟨handles, isHandles, sameHandles, sameGroups, sameWorkers, placed⟩ :=
    classifyCallbackGroups_ok classify rfl
  cases isHandles
  have own := exports.tgId from_.sound
  obtain ⟨h₁, h₂, h₃, workers⟩ := spawnWorkerGroups_ok spawn sameGroups sameWorkers own
  exact ⟨preRegistered, final, timing,
    { sound := from_.sound
      exports
      handles := h₁.trans sameHandles
      threadGroups := h₂.trans sameGroups
      workers
      classified := by rw [h₃]; exact placed },
    scanned.of_sameCallbacks from_⟩

/-- A handle that is in the map leads to a worker group. -/
theorem Started.worker {e : ExecutorState} {final : CallbackRegistry} {timing : TimingExport}
    (started : Started e final timing) {ptr : Ptr} {id : Nat}
    (found : timing.callbackHandleToThreadgroupId.lookup ptr = some id) :
    id ∈ e.threadGroupIdWorkerMap := by
  obtain ⟨name, info, inMap, -, rfl⟩ := (started.exports.handles ptr id).1 found
  obtain ⟨group, atId⟩ := UnorderedMap.mem_iff_lookup.1
    (started.sound.assigned name info inMap (started.exports.assigned name info inMap))
  refine UnorderedMap.mem_iff_lookup.2 ⟨spawnWorkerGroup (CallbackRegistry.attributesOf group), ?_⟩
  rw [started.workers, started.exports.attributes, atId]
  rfl

end ExecutorState

/-! ## Bundling and dispatching -/

/-- The ready entities belong to groups of the map. -/
def ReadyHandles.DrawnFrom (ready : ReadyHandles) (weakGroupsToNodes : WeakCallbackGroupsToNodesMap) : Prop :=
  (∀ subscription ∈ ready.subscriptions, ∃ entry ∈ weakGroupsToNodes, ∃ group,
      entry.group = some group ∧ subscription.ptr ∈ group.dispatched) ∧
    ∀ timer ∈ ready.timers, ∃ entry ∈ weakGroupsToNodes, ∃ group,
      entry.group = some group ∧ timer.ptr ∈ group.dispatched

/-- Every batch is nonempty, and each bundle in it has a handle that leads to the
threadgroup the batch is for. -/
def Collected.Sorted (handles : UnorderedMap Ptr Nat) (c : Collected) : Prop :=
  ∀ tgid bundles, c.bundlesByTgid.lookup tgid = some bundles →
    bundles ≠ [] ∧ ∀ bundle ∈ bundles, handles.lookup bundle.getRawHandle = some tgid

section Collect

variable {handles : UnorderedMap Ptr Nat} {c c' : Collected}

theorem Collected.Sorted.emplaceBundle (sorted : c.Sorted handles) {tgid : Nat}
    {bundle : BundledExecutable} (found : handles.lookup bundle.getRawHandle = some tgid) :
    (c.emplaceBundle tgid bundle).Sorted handles := by
  intro tgid' bundles inMap
  simp only [Collected.emplaceBundle, UnorderedMap.lookup_update] at inMap
  split at inMap
  · rename_i same
    subst same
    cases inMap
    refine ⟨by simp, fun b member => ?_⟩
    rcases List.mem_append.1 member with old | new
    · cases before : c.bundlesByTgid.lookup tgid' with
      | none =>
          rw [UnorderedMap.subscript, before] at old
          cases old
      | some bundles =>
          rw [UnorderedMap.subscript_of_lookup before] at old
          exact (sorted tgid' bundles before).2 b old
    · rw [List.mem_singleton.1 new]
      exact found
  · exact sorted tgid' bundles inMap

/-- What one iteration over the subscriptions does. -/
theorem collectSubscription_cases (handles : UnorderedMap Ptr Nat) (c : Collected) (subscription : ReadySubscription) :
    collectSubscription (some handles) c subscription = .error .middleware ∨
      collectSubscription (some handles) c subscription = .ok c ∨
      ∃ bundle, bundle.getRawHandle = subscription.ptr ∧
        collectSubscription (some handles) c subscription =
          .ok (match handles.lookup subscription.ptr with
            | none => { c with dropped := c.dropped ++ [bundle] }
            | some tgid => c.emplaceBundle tgid bundle) := by
  unfold collectSubscription
  cases took : subscription.takeAndBundle with
  | error error =>
      apply Or.inl
      unfold ReadySubscription.takeAndBundle ReadySubscription.takeLoanedMsg
        ReadySubscription.takeGenericMsg ReadySubscription.takeSerializedMsg tryTake at took
      have only : error = .middleware := by grind
      rw [only]
      rfl
  | ok bundle =>
      cases bundle with
      | none => exact Or.inr (Or.inl rfl)
      | some bundle =>
          have own := ReadySubscription.takeAndBundle_getRawHandle took
          refine Or.inr (Or.inr ⟨bundle, own, ?_⟩)
          rw [← own]
          simp only [lookupHandle, bind, Except.bind]
          cases handles.lookup bundle.getRawHandle <;> rfl

/-- What one iteration over the timers does. -/
theorem collectTimer_cases (handles : UnorderedMap Ptr Nat) (c : Collected) (timer : ReadyTimer) :
    collectTimer (some handles) c timer = .ok c ∨
      ∃ bundle, bundle.getRawHandle = timer.ptr ∧
        collectTimer (some handles) c timer =
          match handles.lookup timer.ptr with
            | none => .error timerHandleNotFound
            | some tgid => .ok (c.emplaceBundle tgid bundle) := by
  unfold collectTimer
  cases took : timer.takeAndBundle with
  | none => exact Or.inl rfl
  | some bundle =>
      have own := ReadyTimer.takeAndBundle_getRawHandle took
      refine Or.inr ⟨bundle, own, ?_⟩
      rw [← own]
      simp only [lookupHandle, bind, Except.bind]
      cases handles.lookup bundle.getRawHandle <;> rfl

/-- The two loops, with one invariant and one property of their errors. -/
theorem collectBundles_rule (I : Collected → Prop) (E : Error → Prop) {ready : ReadyHandles}
    (start : I {})
    (subscription : ∀ c, ∀ subscription ∈ ready.subscriptions, I c →
      (∀ c', collectSubscription (some handles) c subscription = .ok c' → I c') ∧
        ∀ error, collectSubscription (some handles) c subscription = .error error → E error)
    (timer : ∀ c, ∀ timer ∈ ready.timers, I c →
      (∀ c', collectTimer (some handles) c timer = .ok c' → I c') ∧
        ∀ error, collectTimer (some handles) c timer = .error error → E error) :
    (∀ c, collectBundles (some handles) ready = .ok c → I c) ∧
      ∀ error, collectBundles (some handles) ready = .error error → E error := by
  obtain ⟨returns, fails⟩ := Loop.foldlM_rule I E ready.subscriptions subscription start
  unfold collectBundles
  cases ran : ready.subscriptions.foldlM (collectSubscription (some handles)) {} with
  | error error => exact ⟨fun c ran' => (nomatch ran'), fun e ran' => (by cases ran'; exact fails _ ran)⟩
  | ok c => exact Loop.foldlM_rule I E ready.timers timer (returns c ran)

/-- Whatever is ready, a bundle is put under the threadgroup its handle leads to. -/
theorem collectBundles_sorted {ready : ReadyHandles}
    (collected : collectBundles (some handles) ready = .ok c) : c.Sorted handles := by
  refine (collectBundles_rule (Collected.Sorted handles) (fun _ => True)
    (fun _ _ found => nomatch found) (fun c subscription _ sorted => ⟨fun c' ran => ?_, fun _ _ => trivial⟩)
    (fun c timer _ sorted => ⟨fun c' ran => ?_, fun _ _ => trivial⟩)).1 c collected
  · rcases collectSubscription_cases handles c subscription with
      failed | skipped | ⟨bundle, own, took⟩
    · rw [failed] at ran; cases ran
    · rw [skipped] at ran; cases ran; exact sorted
    · rw [took] at ran
      cases found : handles.lookup subscription.ptr with
      | none => rw [found] at ran; cases ran; exact sorted
      | some tgid => rw [found] at ran; cases ran; exact sorted.emplaceBundle (own ▸ found)
  · rcases collectTimer_cases handles c timer with skipped | ⟨bundle, own, took⟩
    · rw [skipped] at ran; cases ran; exact sorted
    · rw [took] at ran
      cases found : handles.lookup timer.ptr with
      | none => rw [found] at ran; cases ran
      | some tgid => rw [found] at ran; cases ran; exact sorted.emplaceBundle (own ▸ found)

/-- Where all handles are known, nothing is dropped and only the middleware can
end the loops. -/
theorem collectBundles_known {ready : ReadyHandles}
    (subscriptions : ∀ subscription ∈ ready.subscriptions, subscription.ptr ∈ handles)
    (timers : ∀ timer ∈ ready.timers, timer.ptr ∈ handles) :
    (∀ c, collectBundles (some handles) ready = .ok c → c.dropped = []) ∧
      ∀ error, collectBundles (some handles) ready = .error error → error = .middleware := by
  refine collectBundles_rule (fun c => c.dropped = []) (fun error => error = .middleware) rfl
    (fun c subscription member kept => ?_) (fun c timer member kept => ?_)
  · obtain ⟨tgid, found⟩ := UnorderedMap.mem_iff_lookup.1 (subscriptions subscription member)
    rcases collectSubscription_cases handles c subscription with
      failed | skipped | ⟨bundle, own, took⟩
    · rw [failed]; exact ⟨fun _ ran => (nomatch ran), fun e ran => (by cases ran; rfl)⟩
    · rw [skipped]; exact ⟨fun c' ran => (by cases ran; exact kept), fun _ ran => nomatch ran⟩
    · rw [took, found]; exact ⟨fun c' ran => (by cases ran; exact kept), fun _ ran => nomatch ran⟩
  · obtain ⟨tgid, found⟩ := UnorderedMap.mem_iff_lookup.1 (timers timer member)
    rcases collectTimer_cases handles c timer with skipped | ⟨bundle, own, took⟩
    · rw [skipped]; exact ⟨fun c' ran => (by cases ran; exact kept), fun _ ran => nomatch ran⟩
    · rw [took, found]; exact ⟨fun c' ran => (by cases ran; exact kept), fun _ ran => nomatch ran⟩

end Collect

/-- Two messages that begin with different letters. -/
theorem Error.runtimeError_ne {what what' : String}
    (differ : what.toList.head? ≠ what'.toList.head?) :
    Error.runtimeError what ≠ Error.runtimeError what' := by
  intro same
  cases same
  exact differ rfl

theorem head?_append {first : String} (letter : Char) (head : first.toList.head? = some letter)
    (rest : String) : (first ++ rest).toList.head? = some letter := by
  rw [String.toList_append, List.head?_append, head]
  rfl

/-- Dispatching to a threadgroup that has a worker group does not fail for want
of one, and the worker groups stay. -/
theorem dispatchBatch_known (choices : DispatchChoices) (bundles : List BundledExecutable)
    {workers : Workers} {tgid : Nat} (known : tgid ∈ workers) :
    (∀ workers', dispatchBatch choices workers tgid bundles = .ok workers' →
        ∀ id, id ∈ workers → id ∈ workers') ∧
      ∀ failed, dispatchBatch choices workers tgid bundles = .error failed →
        failed.1 ≠ timerHandleNotFound ∧ ∀ id, failed.1 ≠ unknownThreadGroup id := by
  obtain ⟨g, found⟩ := UnorderedMap.mem_iff_lookup.1 known
  unfold dispatchBatch
  rw [found]
  split
  · exact ⟨fun workers' ran id member => (by cases ran; exact member), fun _ ran => nomatch ran⟩
  · simp only
    have unknown : ∀ id, (unknownThreadGroup id) = .runtimeError
        ("Unknown thread group id " ++ (toString id ++ " when dispatching rexady bundles")) := fun id => by
      rw [unknownThreadGroup, String.append_assoc]
    split
    · refine ⟨fun _ ran => (nomatch ran), fun failed ran => ?_⟩
      cases ran
      refine ⟨Error.runtimeError_ne ?_, fun id => ?_⟩
      · rw [head?_append 'F' rfl]
        decide
      · rw [unknown]
        apply Error.runtimeError_ne
        rw [head?_append 'F' rfl, head?_append 'U' rfl]
        decide
    · unfold WorkerGroup.updatePrioAtOnce
      simp only
      split
      · rename_i error failed
        refine ⟨fun _ ran => (nomatch ran), fun failed' ran => ?_⟩
        cases ran
        split at failed
        · cases failed
        · split at failed
          · cases failed
            refine ⟨Error.runtimeError_ne (by decide), fun id => ?_⟩
            rw [unknown]
            apply Error.runtimeError_ne
            rw [head?_append 'U' rfl]
            decide
          · cases failed
      · refine ⟨fun workers' ran id member => ?_, fun _ ran => nomatch ran⟩
        cases ran
        exact (AList.mem_insert _).2 (Or.inr member)

theorem dispatchBundles_known (choices : DispatchChoices) (workers : Workers)
    (bundlesByTgid : BundlesByTgid) (known : ∀ tgid ∈ bundlesByTgid, tgid ∈ workers) :
    ∀ failed, dispatchBundles choices workers bundlesByTgid = .error failed →
      failed.1 ≠ timerHandleNotFound ∧ ∀ id, failed.1 ≠ unknownThreadGroup id := by
  have present : ∀ pair ∈ (choices.order bundlesByTgid).entries, pair.1 ∈ workers := by
    intro pair member
    apply known pair.1
    rw [(choices.order_same bundlesByTgid).mem_iff]
    exact UnorderedMap.mem_iff_lookup.2 ⟨pair.2, UnorderedMap.mem_entries_iff.1 member⟩
  refine (Loop.foldlM_rule (fun workers' => ∀ id ∈ workers, id ∈ workers')
    (fun failed : Error × Workers => failed.1 ≠ timerHandleNotFound ∧ ∀ id, failed.1 ≠ unknownThreadGroup id)
    (choices.order bundlesByTgid).entries (fun workers' pair member kept => ?_)
    fun _ member => member).2
  obtain ⟨returns, fails⟩ := dispatchBatch_known choices pair.2 (kept pair.1 (present pair member))
  exact ⟨fun workers'' ran id member' => returns workers'' ran id (kept id member'), fails⟩

/-! ## The dispatch path -/

/-- **Lookups on the dispatch path never fail.**  After a start-up that returned,
every subscription and timer of a group in `weak_groups_to_nodes_` has an entry
in the handle map that leads to a worker group; whatever of them is ready, and
whatever the worker groups have done since, the bundling loops drop nothing and
`populate_ready_queues` throws neither for a timer nor for a threadgroup. -/
theorem dispatch_lookups_succeed {env : Environment} {singleton : Option CallbackRegistry}
    {userChains : List UserChain} {pending weakGroupsToNodes : WeakCallbackGroupsToNodesMap}
    {e : ExecutorState} {registry' : CallbackRegistry}
    (process : ExecutorState.Singleton env singleton pending weakGroupsToNodes)
    (started : (ExecutorState.create userChains pending).startup env singleton = .ok (e, registry')) :
    (∀ entry ∈ e.weakGroupsToNodes, ∀ group, entry.group = some group → ∀ ptr ∈ group.dispatched,
      ∃ handles id, e.callbackHandleToThreadgroupId = some handles ∧ handles.lookup ptr = some id ∧
        id ∈ e.threadGroupIdWorkerMap) ∧
    ∀ (ready : ReadyHandles), ready.DrawnFrom e.weakGroupsToNodes →
      (∀ collected, collectBundles e.callbackHandleToThreadgroupId ready = .ok collected →
        collected.dropped = []) ∧
      ∀ (choices : DispatchChoices) (workers : Workers), (∀ id ∈ e.threadGroupIdWorkerMap, id ∈ workers) →
        ∀ failed, populateReadyQueues e.callbackHandleToThreadgroupId choices ready workers = .error failed →
          failed.1 ≠ timerHandleNotFound ∧ ∀ tgid, failed.1 ≠ unknownThreadGroup tgid := by
  obtain ⟨preRegistered, final, timing, inStep, -⟩ := ExecutorState.startup_started process started
  have lookups : ∀ entry ∈ e.weakGroupsToNodes, ∀ group, entry.group = some group →
      ∀ ptr ∈ group.dispatched, ∃ id, timing.callbackHandleToThreadgroupId.lookup ptr = some id ∧
        id ∈ e.threadGroupIdWorkerMap := by
    intro entry member group isGroup ptr dispatched
    obtain ⟨id, found⟩ := UnorderedMap.mem_iff_lookup.1 (inStep.classified entry member group isGroup ptr dispatched)
    exact ⟨id, found, inStep.worker found⟩
  refine ⟨fun entry member group isGroup ptr dispatched => ?_, fun ready drawn => ?_⟩
  · obtain ⟨id, found, worker⟩ := lookups entry member group isGroup ptr dispatched
    exact ⟨_, id, inStep.handles, found, worker⟩
  · rw [inStep.handles]
    have known : ∀ ptr, (∃ entry ∈ e.weakGroupsToNodes, ∃ group, entry.group = some group ∧
        ptr ∈ group.dispatched) → ptr ∈ timing.callbackHandleToThreadgroupId := by
      rintro ptr ⟨entry, member, group, isGroup, dispatched⟩
      exact inStep.classified entry member group isGroup ptr dispatched
    obtain ⟨returns, fails⟩ := collectBundles_known
      (fun subscription member => known _ (drawn.1 subscription member))
      fun timer member => known _ (drawn.2 timer member)
    refine ⟨returns, fun choices workers workers_ failed ran => ?_⟩
    unfold populateReadyQueues at ran
    split at ran
    · cases ran
    · cases collect : collectBundles (some timing.callbackHandleToThreadgroupId) ready with
      | error error =>
          rw [collect] at ran
          cases ran
          rw [fails error collect]
          exact ⟨nofun, fun _ => nofun⟩
      | ok collected =>
          simp only [collect] at ran
          have sorted := collectBundles_sorted collect
          refine dispatchBundles_known choices workers collected.bundlesByTgid (fun tgid member => ?_) failed ?_
          · obtain ⟨bundles, inMap⟩ := UnorderedMap.mem_iff_lookup.1 member
            obtain ⟨nonempty, all⟩ := sorted tgid bundles inMap
            obtain ⟨bundle, rest, rfl⟩ := List.exists_cons_of_ne_nil nonempty
            exact workers_ _ (inStep.worker (all bundle List.mem_cons_self))
          · cases dispatched : dispatchBundles choices workers collected.bundlesByTgid with
            | error failed' => rw [dispatched] at ran; cases ran; rfl
            | ok workers' => rw [dispatched] at ran; cases ran

/-! ### A start-up -/

def sampleGroup : CallbackGroup :=
  { ptr := 1, type := .mutuallyExclusive, canBeTakenFrom := true, subscriptions := [11], services := [],
    clients := [], timers := [12], waitables := [] }

/-- A mutex group with a subscription and a timer, and a group no chain names. -/
def samplePending : WeakCallbackGroupsToNodesMap :=
  [⟨some sampleGroup, some 100⟩,
    ⟨some { ptr := 2, type := .reentrant, canBeTakenFrom := true, subscriptions := [21],
            services := [], clients := [], timers := [], waitables := [] }, some 100⟩]

def sampleChains : List UserChain :=
  [{ chainName := "control", callbacks := ["sense", "act"], deadline := 10, period := 5 }]

def sampleEnvironment : Environment where
  preRegistered := ((∅ : PreRegisteredNames).insert 11 "sense").insert 12 "act"
  order := .stored
  stack := 8
  base := .accepting

theorem sample_starts :
    ∃ e registry handles, (ExecutorState.create sampleChains samplePending).startup sampleEnvironment none =
        .ok (e, registry) ∧
      e.weakGroupsToNodes = [⟨some sampleGroup, some 100⟩] ∧
      e.callbackHandleToThreadgroupId = some handles ∧ handles.lookup 11 = some 1 ∧
      handles.lookup 12 = some 1 := by
  have values : ((ExecutorState.create sampleChains samplePending).startup sampleEnvironment
      none).toOption.map (fun result => (result.1.weakGroupsToNodes,
        result.1.callbackHandleToThreadgroupId.map fun handles => (handles.lookup 11, handles.lookup 12))) =
        some ([⟨some sampleGroup, some 100⟩], some (some 1, some 1)) := by decide
  cases started : (ExecutorState.create sampleChains samplePending).startup sampleEnvironment none with
  | error error => rw [started] at values; cases values
  | ok result =>
      rw [started] at values
      obtain ⟨placed, looked⟩ := Prod.mk.inj (Option.some.inj values)
      obtain ⟨handles, isHandles, looked⟩ := Option.map_eq_some_iff.1 looked
      obtain ⟨first, second⟩ := Prod.mk.inj looked
      exact ⟨result.1, result.2, handles, rfl, placed, isHandles, first, second⟩

theorem sample_process : ExecutorState.Singleton sampleEnvironment none samplePending samplePending :=
  ⟨fun _ => rfl, fun _ none_ => nomatch none_⟩

/-- The timer of the sample leads to a worker group. -/
theorem dispatch_lookups_succeed_sample :
    ∃ e registry handles id,
      (ExecutorState.create sampleChains samplePending).startup sampleEnvironment none = .ok (e, registry) ∧
      e.callbackHandleToThreadgroupId = some handles ∧ handles.lookup 12 = some id ∧
        id ∈ e.threadGroupIdWorkerMap := by
  obtain ⟨e, registry, -, started, placed, -⟩ := sample_starts
  obtain ⟨handles, id, isHandles, found, worker⟩ :=
    (dispatch_lookups_succeed sample_process started).1 ⟨some sampleGroup, some 100⟩ (by rw [placed]; simp)
      sampleGroup rfl 12 (by decide)
  exact ⟨e, registry, handles, id, started, isHandles, found, worker⟩

end PreemptiveExecutor
