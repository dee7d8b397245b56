/-
# Executor.LifeCycle — executors, nodes and calls of `spin` in one process

A process constructs executors, adds nodes to them, calls `spin` (from any thread, more
than once, and again after a call has thrown), cancels and destroys them; they share one
`CallbackRegistry`.  The system of this module has all of that in its steps.  A call of
`spin` is the point it has reached: between two points stands one of its stages, and
stages of several calls interleave.

Of `rclcpp` it has what the code relies on: the `associated_with_executor` flag of each
node, which every executor sets by `exchange(true)` and resets only for nodes it has; that
`cancel` stores false to `spinning`; and what the waits of the loop do to the groups.  A
`wait_for_work` first adds the groups of the nodes in `weak_nodes_` that no executor has, and
erases those that have expired, or whose nodes have.  A crash (undefined behaviour, no more
stack) ends the process.

Left out are the inherited public operations that the code neither overrides nor calls:
`remove_node`, `add_callback_group`, `remove_callback_group`, the `add_node` of the base class
and its other `spin_…` calls.  The histories here are those without them.
-/
import PreemptiveExecutor.Executor.SharedRegistry
import PreemptiveExecutor.Theory.ThreadPool
import PreemptiveExecutor.Theory.Refinement

namespace PreemptiveExecutor

open Theory

set_option autoImplicit false

/-! ## Nodes -/

/-- A callback group of a node, as `add_node` finds it. -/
structure NodeGroup where
  ptr : Ptr
  associatedWithExecutor : Bool
  automaticallyAddToExecutorWithNode : Bool

/-- A node: what `for_each_callback_group` hands out are shared pointers. -/
structure Node where
  ptr : Ptr
  fullyQualifiedName : String
  groups : List (Option NodeGroup)

/-- What `lock()` makes of the weak pointers of `pending_weak_groups_to_nodes_` in one
pass over it, and the order of the pass. -/
structure Locks where
  order : UnorderedMap Ptr Ptr → UnorderedMap Ptr Ptr
  order_same : ∀ pending, UnorderedMap.SameEntries (fun v w => v = w) pending (order pending)
  group : Ptr → Option CallbackGroup
  group_ptr : ∀ ptr group', group ptr = some group' → group'.ptr = ptr
  node : Ptr → Bool

def Locks.view (locks : Locks) (pending : UnorderedMap Ptr Ptr) : WeakCallbackGroupsToNodesMap :=
  (locks.order pending).entries.map fun pair =>
    ⟨locks.group pair.1, if locks.node pair.2 then some pair.2 else none⟩

/-! ## One executor -/

/-- Where a call of `spin` stands: behind `spinning.exchange(true)` or behind one of the
stages of start-up, in the loop, or out of the call. -/
inductive SpinPoint where
  | entered
  | loaded
  | classified
  | looping
  | threw (error : Error)
  | left (thrown : Option Error)
  deriving DecidableEq

namespace SpinPoint

/-- The call has not ended. -/
def isInside : SpinPoint → Bool
  | .threw _ | .left _ => false
  | _ => true

/-- The call has got past start-up. -/
def isStarted : SpinPoint → Bool
  | .looping | .left _ => true
  | _ => false

end SpinPoint

/-- An executor, with the calls of `spin` on it.  `state.pendingWeakGroupsToNodes` is what
the last pass over `pending` locked. -/
structure LiveExecutor where
  state : ExecutorState
  pending : UnorderedMap Ptr Ptr := ∅
  weakNodes : List Ptr := []
  spinning : Bool := false
  calls : List SpinPoint := []

namespace LiveExecutor

def construct (userChains : List UserChain) : LiveExecutor := { state := .create userChains [] }

/-- The body of `for_each_callback_group` in `add_node`. -/
def addGroup (node : Ptr) (pending : UnorderedMap Ptr Ptr) : Option NodeGroup → UnorderedMap Ptr Ptr
  | none => pending
  | some group =>
      if group.associatedWithExecutor || !group.automaticallyAddToExecutorWithNode then pending
      else pending.insert group.ptr node

/-- The result has the flags of the nodes as the call leaves them. -/
def addNode (associated : Ptr → Bool) (x : LiveExecutor) :
    Option Node → Except Error Unit × (Ptr → Bool) × LiveExecutor
  | none => (.error (.runtimeError "Cannot add null node to executor"), associated, x)
  | some node =>
      if associated node.ptr then
        (.error (.runtimeError ("Node '" ++ node.fullyQualifiedName ++
          "' has already been added to an executor.")), associated, x)
      else
        (.ok (), Function.update associated node.ptr true,
          { x with
            pending := node.groups.foldl (addGroup node.ptr) x.pending
            weakNodes := x.weakNodes ++ [node.ptr] })

def setCall (x : LiveExecutor) (call : Nat) (point : SpinPoint) : LiveExecutor :=
  { x with calls := x.calls.set call point }

/-- Leaving `spin` behind the scope guard. -/
def exit (x : LiveExecutor) (call : Nat) (point : SpinPoint) : LiveExecutor :=
  { x.setCall call point with spinning := false }

/-- The beginning of `spin`. -/
def enter (x : LiveExecutor) : LiveExecutor :=
  { x with
    spinning := true
    calls := x.calls ++
      [if x.spinning then .threw (.runtimeError "spin_some() called while already spinning") else .entered] }

/-- What `load_timing_info` leaves in the executor when it returns. -/
def withTiming (x : LiveExecutor) (view : WeakCallbackGroupsToNodesMap) (timing : TimingExport) : ExecutorState :=
  { x.state with
    pendingWeakGroupsToNodes := view
    callbackHandleToThreadgroupId := some timing.callbackHandleToThreadgroupId
    threadGroups := some timing.threadgroupAttributes }

def loadTimingInfo (x : LiveExecutor) (call : Nat) (view : WeakCallbackGroupsToNodesMap) :
    Except Error TimingExport → LiveExecutor
  | .error error => x.exit call (.threw error)
  | .ok timing => { x.setCall call .loaded with state := x.withTiming view timing }

/-- `pending_weak_groups_to_nodes_` is cleared by a classification that returns. -/
def classifyCallbackGroups (x : LiveExecutor) (call : Nat) (view : WeakCallbackGroupsToNodesMap)
    (base : BaseExecutor) : LiveExecutor :=
  match { x.state with pendingWeakGroupsToNodes := view }.classifyCallbackGroups base with
  | .error failed => { x.exit call (.threw failed.error) with state := failed.executor }
  | .ok state => { x.setCall call .classified with state, pending := ∅ }

def spawnWorkerGroups (x : LiveExecutor) (call : Nat) (base : BaseExecutor) : LiveExecutor :=
  match x.state.spawnWorkerGroups base with
  | .error failed => { x.exit call (.threw failed.error) with state := failed.executor }
  | .ok state => { x.setCall call .looping with state }

/-- The beginning of `wait_for_work`, which finds `more` groups to add. -/
def waitForWork (x : LiveExecutor) (more : List (CallbackGroup × Ptr)) (expired : WeakGroupEntry → Bool) :
    LiveExecutor :=
  { x with
    state := { x.state with
      weakGroupsToNodes := (x.state.weakGroupsToNodes ++
        more.map fun pair => (⟨some pair.1, some pair.2⟩ : WeakGroupEntry)).filter (!expired ·) } }

theorem mem_waitForWork {x : LiveExecutor} {more : List (CallbackGroup × Ptr)} {expired : WeakGroupEntry → Bool}
    {entry : WeakGroupEntry} (member : entry ∈ (x.waitForWork more expired).state.weakGroupsToNodes) :
    entry ∈ x.state.weakGroupsToNodes ∨ ∃ pair ∈ more, entry = ⟨some pair.1, some pair.2⟩ := by
  rcases List.mem_append.1 (List.mem_filter.1 member).1 with old | new
  · exact Or.inl old
  · obtain ⟨pair, inMore, rfl⟩ := List.mem_map.1 new
    exact Or.inr ⟨pair, inMore, rfl⟩

end LiveExecutor

/-! ## The process -/

/-- The steps of one executor.  A stage of `spin` is a step of one of its calls. -/
inductive ExecutorAction where
  | construct (userChains : List UserChain)
  | addNode (node : Option Node)
  | spin
  | loadTimingInfo (call : Nat) (locks : Locks) (preRegistered : PreRegisteredNames) (order : IterationOrder)
      (stack : Nat)
  | classifyCallbackGroups (call : Nat) (locks : Locks) (base : BaseExecutor)
  | spawnWorkerGroups (call : Nat) (base : BaseExecutor)
  | waitForWork (call : Nat) (more : List (CallbackGroup × Ptr)) (expired : WeakGroupEntry → Bool)
  | leave (call : Nat) (thrown : Option Error)
  | cancel
  | destroy

/-- An executor moves, or an executor of another kind takes or gives up a node. -/
inductive ProcessLabel where
  | executor (id : Nat) (action : ExecutorAction)
  | otherTakes (node : Ptr)
  | otherGivesUp (node : Ptr)

/-- `associated` has the flags of the nodes; `others` the nodes that executors of another
kind have. -/
structure Process where
  associated : Ptr → Bool
  others : List Ptr
  registry : Option CallbackRegistry
  executors : Nat → Option LiveExecutor

/-- An exception, which `spin` passes on; the other errors end the process. -/
def Error.isException : Error → Bool
  | .runtimeError _ | .middleware => true
  | _ => false

namespace Process

def start : Process where
  associated _ := false
  others := []
  registry := none
  executors _ := none

def setExecutor (p : Process) (id : Nat) (x : LiveExecutor) : Process :=
  { p with executors := Function.update p.executors id (some x) }

/-- A step of the executor `x`. -/
def act (p : Process) (id : Nat) (x : LiveExecutor) : ExecutorAction → Option Process
  | .construct _ => none
  | .addNode node =>
      let (_, associated, x) := x.addNode p.associated node
      some { p.setExecutor id x with associated }
  | .spin => some (p.setExecutor id x.enter)
  | .loadTimingInfo call locks preRegistered order stack =>
      if x.calls[call]? = some .entered then
        let view := locks.view x.pending
        let (result, registry) := load p.registry ⟨preRegistered, view, x.state.userChains, order, stack⟩
        if Except.isOk result || (Loop.thrown result).any Error.isException then
          some { p.setExecutor id (x.loadTimingInfo call view result) with registry }
        else none
      else none
  | .classifyCallbackGroups call locks base =>
      if x.calls[call]? = some .loaded then
        some (p.setExecutor id (x.classifyCallbackGroups call (locks.view x.pending) base))
      else none
  | .spawnWorkerGroups call base =>
      if x.calls[call]? = some .classified then some (p.setExecutor id (x.spawnWorkerGroups call base)) else none
  | .waitForWork call more expired =>
      -- what is added is of a node of the executor
      if x.calls[call]? = some .looping ∧ ∀ pair ∈ more, pair.2 ∈ x.weakNodes then
        some (p.setExecutor id (x.waitForWork more expired))
      else none
  | .leave call thrown =>
      if x.calls[call]? = some .looping then some (p.setExecutor id (x.exit call (.left thrown))) else none
  | .cancel => some (p.setExecutor id { x with spinning := false })
  | .destroy =>
      -- `~Executor` resets the flags of its nodes; no call may be inside
      if x.calls.all (!·.isInside) then
        some { p with
          associated := fun node => p.associated node && decide (node ∉ x.weakNodes)
          executors := Function.update p.executors id none }
      else none

def step (p : Process) : ProcessLabel → Option Process
  | .executor id action =>
      match p.executors id, action with
      | none, .construct userChains => some (p.setExecutor id (.construct userChains))
      | none, _ => none
      | some x, action => p.act id x action
  | .otherTakes node =>
      if p.associated node then none
      else some { p with associated := Function.update p.associated node true, others := node :: p.others }
  | .otherGivesUp node =>
      if node ∈ p.others then
        some { p with associated := Function.update p.associated node false, others := p.others.erase node }
      else none

/-- All histories of a process. -/
def system : Transition Process ProcessLabel where
  Init p := p = start
  step := step

/-! ## What a step of an executor does -/

/-- The steps of the executor `x`, with the process that each leaves. -/
inductive Acts (p : Process) (id : Nat) (x : LiveExecutor) : ExecutorAction → Process → Prop where
  | refused {node : Option Node} (why : ∀ node', node = some node' → p.associated node'.ptr = true) :
      Acts p id x (.addNode node) (p.setExecutor id x)
  | added {node : Node} (free : p.associated node.ptr = false) :
      Acts p id x (.addNode (some node))
        { p.setExecutor id { x with
            pending := node.groups.foldl (LiveExecutor.addGroup node.ptr) x.pending
            weakNodes := x.weakNodes ++ [node.ptr] } with
          associated := Function.update p.associated node.ptr true }
  | spin : Acts p id x .spin (p.setExecutor id x.enter)
  | loadThrew {call : Nat} {locks : Locks} {preRegistered : PreRegisteredNames} {order : IterationOrder}
      {stack : Nat} {error : Error} {registry : Option CallbackRegistry}
      (at_ : x.calls[call]? = some .entered)
      (threw : load p.registry ⟨preRegistered, locks.view x.pending, x.state.userChains, order, stack⟩ =
        (.error error, registry)) :
      Acts p id x (.loadTimingInfo call locks preRegistered order stack)
        { p.setExecutor id (x.exit call (.threw error)) with registry }
  | loaded {call : Nat} {locks : Locks} {preRegistered : PreRegisteredNames} {order : IterationOrder}
      {stack : Nat} {timing : TimingExport} {registry : Option CallbackRegistry}
      (at_ : x.calls[call]? = some .entered)
      (returned : load p.registry ⟨preRegistered, locks.view x.pending, x.state.userChains, order, stack⟩ =
        (.ok timing, registry)) :
      Acts p id x (.loadTimingInfo call locks preRegistered order stack)
        { p.setExecutor id { x.setCall call .loaded with
            state := x.withTiming (locks.view x.pending) timing } with registry }
  | classifyThrew {call : Nat} {locks : Locks} {base : BaseExecutor} {failed : Failed}
      (at_ : x.calls[call]? = some .loaded)
      (threw : { x.state with pendingWeakGroupsToNodes := locks.view x.pending }.classifyCallbackGroups base =
        .error failed) :
      Acts p id x (.classifyCallbackGroups call locks base)
        (p.setExecutor id { x.exit call (.threw failed.error) with state := failed.executor })
  | classified {call : Nat} {locks : Locks} {base : BaseExecutor} {state : ExecutorState}
      (at_ : x.calls[call]? = some .loaded)
      (returned : { x.state with pendingWeakGroupsToNodes := locks.view x.pending }.classifyCallbackGroups base =
        .ok state) :
      Acts p id x (.classifyCallbackGroups call locks base)
        (p.setExecutor id { x.setCall call .classified with state, pending := ∅ })
  | spawnThrew {call : Nat} {base : BaseExecutor} {failed : Failed} (at_ : x.calls[call]? = some .classified)
      (threw : x.state.spawnWorkerGroups base = .error failed) :
      Acts p id x (.spawnWorkerGroups call base)
        (p.setExecutor id { x.exit call (.threw failed.error) with state := failed.executor })
  | spawned {call : Nat} {base : BaseExecutor} {state : ExecutorState} (at_ : x.calls[call]? = some .classified)
      (returned : x.state.spawnWorkerGroups base = .ok state) :
      Acts p id x (.spawnWorkerGroups call base) (p.setExecutor id { x.setCall call .looping with state })
  | waited {call : Nat} {more : List (CallbackGroup × Ptr)} {expired : WeakGroupEntry → Bool}
      (at_ : x.calls[call]? = some .looping) (ofNodes : ∀ pair ∈ more, pair.2 ∈ x.weakNodes) :
      Acts p id x (.waitForWork call more expired) (p.setExecutor id (x.waitForWork more expired))
  | left {call : Nat} {thrown : Option Error} (at_ : x.calls[call]? = some .looping) :
      Acts p id x (.leave call thrown) (p.setExecutor id (x.exit call (.left thrown)))
  | cancelled : Acts p id x .cancel (p.setExecutor id { x with spinning := false })
  | destroyed (outside : ∀ point ∈ x.calls, point.isInside = false) :
      Acts p id x .destroy { p with
        associated := fun node => p.associated node && decide (node ∉ x.weakNodes)
        executors := Function.update p.executors id none }

theorem act_cases {p p' : Process} {id : Nat} {x : LiveExecutor} {action : ExecutorAction}
    (acted : p.act id x action = some p') : Acts p id x action p' := by
  cases action with
  | construct userChains => cases acted
  | addNode node =>
      cases node with
      | none => cases acted; exact .refused (by rintro _ ⟨⟩)
      | some node =>
          simp only [act, LiveExecutor.addNode] at acted
          split at acted
          · rename_i taken
            cases acted
            exact .refused fun _ same => Option.some.inj same ▸ taken
          · rename_i free
            cases acted
            exact .added (Bool.eq_false_iff.2 free)
  | spin => cases acted; exact .spin
  | loadTimingInfo call locks preRegistered order stack =>
      simp only [act] at acted
      split at acted
      · rename_i at_
        cases loads : load p.registry ⟨preRegistered, locks.view x.pending, x.state.userChains, order, stack⟩ with
        | mk result registry =>
            rw [loads] at acted
            cases result with
            | error error =>
                simp only at acted
                split at acted
                · cases acted; exact .loadThrew at_ loads
                · cases acted
            | ok timing => cases acted; exact .loaded at_ loads
      · cases acted
  | classifyCallbackGroups call locks base =>
      simp only [act, LiveExecutor.classifyCallbackGroups] at acted
      split at acted
      · rename_i at_
        split at acted
        · rename_i threw
          cases acted
          exact .classifyThrew at_ threw
        · rename_i returned
          cases acted
          exact .classified at_ returned
      · cases acted
  | spawnWorkerGroups call base =>
      simp only [act, LiveExecutor.spawnWorkerGroups] at acted
      split at acted
      · rename_i at_
        split at acted
        · rename_i threw
          cases acted
          exact .spawnThrew at_ threw
        · rename_i returned
          cases acted
          exact .spawned at_ returned
      · cases acted
  | waitForWork call more expired =>
      simp only [act] at acted
      split at acted
      · rename_i guard
        cases acted
        exact .waited guard.1 guard.2
      · cases acted
  | leave call thrown =>
      simp only [act] at acted
      split at acted
      · rename_i at_
        cases acted
        exact .left at_
      · cases acted
  | cancel => cases acted; exact .cancelled
  | destroy =>
      simp only [act] at acted
      split at acted
      · rename_i outside
        cases acted
        refine .destroyed fun point member => ?_
        simpa using List.all_eq_true.1 outside point member
      · cases acted

/-- The steps of a process. -/
inductive Steps (p : Process) : ProcessLabel → Process → Prop where
  | construct {id : Nat} {userChains : List UserChain} (free : p.executors id = none) :
      Steps p (.executor id (.construct userChains)) (p.setExecutor id (.construct userChains))
  | acts {id : Nat} {x : LiveExecutor} {action : ExecutorAction} {p' : Process} (at_ : p.executors id = some x)
      (acts : Acts p id x action p') : Steps p (.executor id action) p'
  | otherTakes {node : Ptr} (free : p.associated node = false) :
      Steps p (.otherTakes node)
        { p with associated := Function.update p.associated node true, others := node :: p.others }
  | otherGivesUp {node : Ptr} (has : node ∈ p.others) :
      Steps p (.otherGivesUp node)
        { p with associated := Function.update p.associated node false, others := p.others.erase node }

theorem step_cases {p p' : Process} {label : ProcessLabel} (stepped : system.step p label = some p') :
    Steps p label p' := by
  cases label with
  | executor id action =>
      simp only [system, step] at stepped
      cases at_ : p.executors id with
      | some x =>
          rw [at_] at stepped
          exact .acts at_ (act_cases stepped)
      | none =>
          rw [at_] at stepped
          cases action with
          | construct userChains =>
              cases stepped
              exact .construct at_
          | _ => cases stepped
  | otherTakes node =>
      simp only [system, step] at stepped
      split at stepped
      · cases stepped
      · rename_i free
        cases stepped
        exact .otherTakes (Bool.eq_false_iff.2 free)
  | otherGivesUp node =>
      simp only [system, step] at stepped
      split at stepped
      · rename_i has
        cases stepped
        exact .otherGivesUp has
      · cases stepped

/-- Other executors keep what they have. -/
theorem Acts.elsewhere {p p' : Process} {id : Nat} {x : LiveExecutor} {action : ExecutorAction}
    (acts : Acts p id x action p') {id' : Nat} (other : id' ≠ id) : p'.executors id' = p.executors id' := by
  cases acts <;> exact Function.update_of_ne other ..

/-- Only `load_timing_info` touches the registry. -/
theorem Acts.registry {p p' : Process} {id : Nat} {x : LiveExecutor} {action : ExecutorAction}
    (acts : Acts p id x action p') :
    p'.registry = p.registry ∨ ∃ call, p'.registry = (load p.registry call).2 := by
  cases acts with
  | loadThrew at_ threw => exact Or.inr ⟨_, (congrArg Prod.snd threw).symm⟩
  | loaded at_ returned => exact Or.inr ⟨_, (congrArg Prod.snd returned).symm⟩
  | _ => exact Or.inl rfl

end Process

end PreemptiveExecutor
