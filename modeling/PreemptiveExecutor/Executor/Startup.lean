/-
# Executor.Startup — what `spin` does before its loop

`load_timing_info`, `classify_callback_groups` and `spawn_worker_groups`, in the
order `spin` calls them (`ExecutorState.startup`).  The registry is the one
instance of the process: it is constructed by the first call and handed on.

An error carries the executor as it was when the error was raised.
-/
import PreemptiveExecutor.Registry.Export
import PreemptiveExecutor.Workers.Model
import PreemptiveExecutor.Executor.Bundles

namespace PreemptiveExecutor

open Theory

set_option autoImplicit false

/-- `rclcpp`, as far as start-up calls it.  An insertion into the map of waited-for groups
may throw, and otherwise puts the pair into it; making the `MultiThreadedExecutor` of the
other groups, adding them to it and starting its thread may throw. -/
structure BaseExecutor where
  addCallbackGroupToMap : CallbackGroup → Ptr → WeakCallbackGroupsToNodesMap →
    Except Error WeakCallbackGroupsToNodesMap
  adds : ∀ group node weakGroups weakGroups',
    addCallbackGroupToMap group node weakGroups = .ok weakGroups' →
    ∀ entry, entry ∈ weakGroups' ↔ entry = ⟨some group, some node⟩ ∨ entry ∈ weakGroups
  startNonRtExecutor : List (CallbackGroup × Ptr) → Except Error Unit

/-- A base executor that never refuses a group. -/
def BaseExecutor.accepting : BaseExecutor where
  addCallbackGroupToMap group node weakGroups := .ok (weakGroups ++ [⟨some group, some node⟩])
  adds group node weakGroups weakGroups' added entry := by
    cases added
    rw [List.mem_append, List.mem_singleton, or_comm]
  startNonRtExecutor _ := .ok ()

/-- The entities of a group that are dispatched: subscriptions and timers. -/
def CallbackGroup.dispatched (group : CallbackGroup) : List Ptr := group.subscriptions ++ group.timers

/-- The members of `PreemptiveExecutor` that start-up and dispatch use. -/
structure ExecutorState where
  userChains : List UserChain
  pendingWeakGroupsToNodes : WeakCallbackGroupsToNodesMap
  weakGroupsToNodes : WeakCallbackGroupsToNodesMap := []
  nonRtCallbackGroups : List (CallbackGroup × Ptr) := []
  nonRtCallbackGroupsSpawned : Bool := false
  callbackHandleToThreadgroupId : Option (UnorderedMap Ptr Nat) := none
  threadGroups : Option (UnorderedMap Nat ThreadGroupAttributes) := none
  threadGroupIdWorkerMap : UnorderedMap Nat (WorkerGroup BundledExecutable) := ∅

/-- An error and the executor it leaves behind. -/
structure Failed where
  error : Error
  executor : ExecutorState

/-- What start-up takes from outside the executor. -/
structure Environment where
  preRegistered : PreRegisteredNames
  order : IterationOrder
  stack : Nat
  base : BaseExecutor

namespace ExecutorState

/-! ## `load_timing_info` -/

/-- `CallbackRegistry::get_instance`: a function-local static. -/
def getInstance (env : Environment) (singleton : Option CallbackRegistry) (e : ExecutorState) :
    Except Error CallbackRegistry :=
  match singleton with
  | some registry => .ok registry
  | none => CallbackRegistry.construct env.preRegistered e.pendingWeakGroupsToNodes e.userChains

/-- The result has the registry that the call leaves. -/
def loadTimingInfo (env : Environment) (singleton : Option CallbackRegistry) (e : ExecutorState) :
    Except Error (ExecutorState × CallbackRegistry) :=
  match getInstance env singleton e with
  | .error error => .error error
  | .ok registry =>
      match registry.callbackThreadgroupAllocation env.order env.stack with
      | .error thrown => .error thrown.error
      | .ok (timing, registry) =>
          .ok ({ e with
            callbackHandleToThreadgroupId := some timing.callbackHandleToThreadgroupId
            threadGroups := some timing.threadgroupAttributes }, registry)

/-! ## `classify_callback_groups` -/

def hasRt (handles : UnorderedMap Ptr Nat) (group : CallbackGroup) : Bool :=
  group.dispatched.any fun ptr => decide (ptr ∈ handles)

def hasNonRt (handles : UnorderedMap Ptr Nat) (group : CallbackGroup) : Bool :=
  group.dispatched.any fun ptr => decide (ptr ∉ handles)

/-- The body of the loop over the pending groups. -/
def classifyGroup (base : BaseExecutor) (handles : UnorderedMap Ptr Nat) (e : ExecutorState)
    (entry : WeakGroupEntry) : Except Failed ExecutorState :=
  match entry.group, entry.node with
  | some group, some node =>
      if hasRt handles group && hasNonRt handles group then
        .error ⟨.runtimeError "Mixed RT and non-RT callbacks in a single callback group", e⟩
      else if hasRt handles group then
        match base.addCallbackGroupToMap group node e.weakGroupsToNodes with
        | .error error => .error ⟨error, e⟩
        | .ok weakGroupsToNodes => .ok { e with weakGroupsToNodes }
      else .ok { e with nonRtCallbackGroups := e.nonRtCallbackGroups ++ [(group, node)] }
  | _, _ => .ok e

def classifyCallbackGroups (base : BaseExecutor) (e : ExecutorState) :
    Except Failed ExecutorState :=
  match e.callbackHandleToThreadgroupId with
  | none => .error ⟨.runtimeError "Timing info missing before classifying callback groups", e⟩
  | some handles =>
      (e.pendingWeakGroupsToNodes.foldlM (classifyGroup base handles) e).map
        fun e => { e with pendingWeakGroupsToNodes := [] }

/-! ## `spawn_worker_groups` -/

/-- The constructor call for one thread group. -/
def spawnWorkerGroup (threadGroup : ThreadGroupAttributes) : WorkerGroup BundledExecutable :=
  if threadGroup.isMutexGroup then WorkerGroup.spawnMutexGroup threadGroup.priority
  else WorkerGroup.spawn false threadGroup.priority threadGroup.numberOfThreads

theorem spawnWorkerGroup_eq (threadGroup : ThreadGroupAttributes) :
    spawnWorkerGroup threadGroup = .spawn threadGroup.isMutexGroup threadGroup.priority
      (if threadGroup.isMutexGroup then 1 else threadGroup.numberOfThreads) := by
  unfold spawnWorkerGroup WorkerGroup.spawnMutexGroup
  cases threadGroup.isMutexGroup <;> rfl

/-- The non-real-time executor is spawned first, or an error raised.  The system is taken
to have a thread for each worker: where it has not, `std::thread` throws, and the threads
made before it in that group end the process when they are destroyed. -/
def spawnWorkerGroups (base : BaseExecutor) (e : ExecutorState) : Except Failed ExecutorState :=
  if !e.nonRtCallbackGroupsSpawned && !e.nonRtCallbackGroups.isEmpty then
    match base.startNonRtExecutor e.nonRtCallbackGroups with
    | .error error => .error ⟨error, e⟩
    | .ok () =>
        match e.threadGroups with
        | none => .error ⟨.undefinedBehaviour, { e with nonRtCallbackGroupsSpawned := true }⟩
        | some threadGroups =>
            .ok { e with
              nonRtCallbackGroupsSpawned := true
              threadGroupIdWorkerMap := threadGroups.entries.foldl
                (fun workers pair => UnorderedMap.emplace workers pair.2.tgId (spawnWorkerGroup pair.2))
                e.threadGroupIdWorkerMap }
  else .error ⟨.runtimeError "Non-RT executor already spawned", e⟩

/-! ## `spin` -/

/-- The executor as constructed, with the groups its nodes have brought. -/
def create (userChains : List UserChain) (pendingWeakGroupsToNodes : WeakCallbackGroupsToNodesMap) :
    ExecutorState :=
  { userChains, pendingWeakGroupsToNodes }

/-- The part of `spin` before its loop. -/
def startup (env : Environment) (singleton : Option CallbackRegistry) (e : ExecutorState) :
    Except Error (ExecutorState × CallbackRegistry) :=
  match e.loadTimingInfo env singleton with
  | .error error => .error error
  | .ok (loaded, registry) =>
      match loaded.classifyCallbackGroups env.base with
      | .error failed => .error failed.error
      | .ok classified =>
          match classified.spawnWorkerGroups env.base with
          | .error failed => .error failed.error
          | .ok spawned => .ok (spawned, registry)

end ExecutorState

end PreemptiveExecutor
