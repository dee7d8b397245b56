/-
# Registry.Allocation — `callback_threadgroup_allocation`

The allocation in the order the code runs it: the root loop with
`recursiveCallbackTraversal`, the priority loop over the deadline map, the
thread-count loop with `recursiveThreadgroupTraversal`, and the export.

A recursive function takes the depth of the call stack it may use; running out
is the error `stackOverflow`.  An error carries the registry as it was when the
error was raised, since the registry outlives the call.  The iteration order of
the unordered containers is a parameter (`IterationOrder`).
-/
import PreemptiveExecutor.Theory.OrderedMultimap
import PreemptiveExecutor.Registry.Model

namespace PreemptiveExecutor

open Theory

set_option autoImplicit false

/-! ## What the allocation returns -/

structure ThreadGroupAttributes where
  tgId : Nat
  numberOfThreads : Nat
  priority : Nat
  isMutexGroup : Bool
  deriving DecidableEq, Repr

structure TimingExport where
  callbackHandleToThreadgroupId : UnorderedMap Ptr Nat := ∅
  threadgroupAttributes : UnorderedMap Nat ThreadGroupAttributes := ∅

/-- An error and the registry it leaves behind. -/
structure Thrown where
  error : Error
  registry : CallbackRegistry

/-! ## Iteration order -/

/-- The same adjacency record up to the order of the `outgoing` set. -/
def CallbackAdjacencyInfo.Same (a b : CallbackAdjacencyInfo) : Prop :=
  a.outgoing.Perm b.outgoing ∧ a.indegree = b.indegree ∧ a.deadlines = b.deadlines ∧
    a.periods = b.periods ∧ a.minDeadline = b.minDeadline

def ThreadGroupAdjacencyInfo.Same (a b : ThreadGroupAdjacencyInfo) : Prop :=
  a.outgoing.Perm b.outgoing ∧ a.incoming.Perm b.incoming

/-- An order in which the unordered containers are iterated: a rearrangement of
`adjacency_list_` and its `outgoing` sets, and of `threadgroup_adjacency_list_`
and its edge sets, that keeps their contents. -/
structure IterationOrder where
  adjacencyList : AdjacencyList → AdjacencyList
  threadgroupAdjacencyList : ThreadgroupAdjacencyList → ThreadgroupAdjacencyList
  adjacencyList_same : ∀ a,
    UnorderedMap.SameEntries CallbackAdjacencyInfo.Same a (adjacencyList a)
  threadgroupAdjacencyList_same : ∀ a,
    UnorderedMap.SameEntries ThreadGroupAdjacencyInfo.Same a (threadgroupAdjacencyList a)

/-- Containers that are iterated in the order in which they are stored. -/
def IterationOrder.stored : IterationOrder where
  adjacencyList a := a
  threadgroupAdjacencyList a := a
  adjacencyList_same := UnorderedMap.sameEntries_refl fun _ => ⟨List.Perm.refl _, rfl, rfl, rfl, rfl⟩
  threadgroupAdjacencyList_same :=
    UnorderedMap.sameEntries_refl fun _ => ⟨List.Perm.refl _, List.Perm.refl _⟩

/-- `std::map<uint32_t, std::vector<int>>`. -/
abbrev DeadlineMap := OrderedMultimap Uint32 Nat

/-- The registry together with the deadline map the traversal is handed. -/
structure TraversalState extends CallbackRegistry where
  deadlineToThreadgroupIdMap : DeadlineMap := []

namespace TraversalState

def setThreadgroupId (s : TraversalState) (callbackName : String) (info : CallbackInfo)
    (threadgroupId : Nat) : TraversalState :=
  { s with callbackMap := s.callbackMap.insert callbackName { info with threadgroupId } }

def updateThreadgroup (s : TraversalState) (threadgroupId : Nat)
    (f : ThreadGroupInfo → ThreadGroupInfo) : TraversalState :=
  { s with threadgroupCallbackMap := UnorderedMap.update s.threadgroupCallbackMap threadgroupId f }

def pushCallback (s : TraversalState) (threadgroupId : Nat) (callbackName : String) :
    TraversalState :=
  s.updateThreadgroup threadgroupId fun info =>
    { info with callbacks := info.callbacks ++ [callbackName] }

def generateThreadgroupId (s : TraversalState) : Nat × TraversalState :=
  (s.nextThreadgroupId, { s with nextThreadgroupId := s.nextThreadgroupId + 1 })

/-- The id of the threadgroup a callback opens or enters: the one its mutex
group already has, or a new one. -/
def newThreadgroupId (s : TraversalState) (info : CallbackInfo) : Nat × TraversalState :=
  match info.isMutex, s.mutexThreadgroupMap.lookup info.callbackGroup.ptr with
  | true, some threadgroupId => (threadgroupId, s)
  | isMutexGroup, _ =>
      let (newId, s) := s.generateThreadgroupId
      if isMutexGroup then
        (newId,
          { s with mutexThreadgroupMap := s.mutexThreadgroupMap.insert info.callbackGroup.ptr newId
            }.updateThreadgroup newId fun group => { group with isMutexGroup := true })
      else (newId, s)

/-- The edge between the threadgroup the traversal comes from and a new one. -/
def linkThreadgroups (s : TraversalState) (prevThreadgroupId newThreadgroupId : Nat) :
    TraversalState :=
  if prevThreadgroupId = 0 then s
  else
    { s with
      threadgroupAdjacencyList :=
        UnorderedMap.update
          (UnorderedMap.update s.threadgroupAdjacencyList prevThreadgroupId fun info =>
            { info with outgoing := info.outgoing.insert newThreadgroupId })
          newThreadgroupId fun info => { info with incoming := info.incoming.insert prevThreadgroupId } }

/-- The callback joins the threadgroup it opens or enters, and the deadline map
records its `min_deadline` for that threadgroup. -/
def enterThreadgroup (s : TraversalState) (callbackName : String) (info : CallbackInfo) :
    Nat × TraversalState :=
  let (newId, s) := s.newThreadgroupId info
  let s := s.updateThreadgroup newId fun group =>
    { group with callbacks := group.callbacks ++ [callbackName], threadgroupId := newId }
  let s := s.setThreadgroupId callbackName info newId
  (newId,
    { s with
      deadlineToThreadgroupIdMap :=
        OrderedMultimap.pushBack (s.adjacencyList.minDeadline callbackName) newId
          s.deadlineToThreadgroupIdMap })

/-- The group-assignment part of the traversal of an unvisited callback.  The
result is the local `threadgroup_id` with which the traversal goes on. -/
def assignThreadgroup (s : TraversalState) (callbackName : String) (info : CallbackInfo)
    (threadgroupId prevThreadgroupId : Nat) : Nat × TraversalState :=
  if threadgroupId = 0 ∨ info.isMutex then
    let (newId, s) := s.enterThreadgroup callbackName info
    if threadgroupId = 0 then (newId, s.linkThreadgroups prevThreadgroupId newId)
    else (threadgroupId, s)
  else (threadgroupId, s.setThreadgroupId callbackName info threadgroupId)

/-- `recursive_callback_traversal`.  The loop over `outgoing` also assigns the
local `prev_threadgroup_id`, which is not read again. -/
def recursiveCallbackTraversal :
    Nat → String → Nat → Nat → TraversalState → Except Thrown TraversalState
  | 0, _, _, _, s => .error ⟨.stackOverflow, s.toCallbackRegistry⟩
  | stack + 1, callbackName, threadgroupId, prevThreadgroupId, s =>
      match s.callbackMap.lookup callbackName with
      | none =>
          .error ⟨.runtimeError "Callback not found in callback map", s.toCallbackRegistry⟩
      | some info =>
          -- acts as a visited set
          if info.threadgroupId ≠ 0 then .ok s
          else
            let (threadgroupId, s) :=
              s.assignThreadgroup callbackName info threadgroupId prevThreadgroupId
            match s.adjacencyList.outgoing callbackName with
            | [] => .ok s
            | next :: others =>
                let s := if others = [] then s.pushCallback threadgroupId next else s
                if s.adjacencyList.indegree next = 1 then
                  recursiveCallbackTraversal stack next threadgroupId prevThreadgroupId s
                else
                  (next :: others).foldlM
                    (fun s next => recursiveCallbackTraversal stack next 0 threadgroupId s) s

end TraversalState

namespace CallbackRegistry

/-- The root loop of `callback_threadgroup_allocation`. -/
def traverseRoots (stack : Nat) (r : CallbackRegistry) : Except Thrown TraversalState :=
  r.adjacencyList.entries.foldlM
    (fun s entry =>
      if entry.2.indegree = 0 then s.recursiveCallbackTraversal stack entry.1 0 0 else .ok s)
    { toCallbackRegistry := r }

/-! ## The priority loop -/

/-- One threadgroup id of the deadline map; the counter is a `uint16_t`. -/
def assignFixedPriority (state : UnorderedMap Nat ThreadGroupInfo × Uint16) (threadgroupId : Nat) :
    UnorderedMap Nat ThreadGroupInfo × Uint16 :=
  if (UnorderedMap.subscript state.1 threadgroupId).fixedPriority = 0 then
    (UnorderedMap.update state.1 threadgroupId fun info => { info with fixedPriority := state.2 },
      state.2 + 1)
  else state

def assignFixedPriorities (s : TraversalState) : CallbackRegistry :=
  { s.toCallbackRegistry with
    threadgroupCallbackMap :=
      ((OrderedMultimap.values s.deadlineToThreadgroupIdMap).foldl assignFixedPriority
        (s.threadgroupCallbackMap, 1)).1 }

/-! ## The thread-count loop -/

/-- The thread count of a root threadgroup, from the adjacency record of its
first callback.  The quotient is an integer before `std::ceil` sees it; reading
an empty vector, dividing by zero and narrowing a double that does not fit
`uint16_t` are undefined. -/
def rootNumThreads (info : CallbackAdjacencyInfo) : Except Error Uint16 :=
  match info.periods.head?, info.deadlines.max? with
  | some period, some deadline =>
      if period = 0 then .error .undefinedBehaviour
      else if fits : deadline.val / period.val < 2 ^ 16 then .ok ⟨_, fits⟩
      else .error .undefinedBehaviour
  | _, _ => .error .undefinedBehaviour

def setNumThreads (r : CallbackRegistry) (threadgroupId : Nat) (numThreads : Uint16) :
    CallbackRegistry :=
  { r with
    threadgroupCallbackMap := UnorderedMap.update r.threadgroupCallbackMap threadgroupId fun info =>
      { info with numThreads } }

def numThreadsOf (r : CallbackRegistry) (threadgroupId : Nat) : Uint16 :=
  (UnorderedMap.subscript r.threadgroupCallbackMap threadgroupId).numThreads

/-- The part of `recursive_threadgroup_traversal` before its recursion. -/
def updateNumThreads (r : CallbackRegistry) (threadgroupId : Nat) : Except Error CallbackRegistry :=
  let r := r.setNumThreads threadgroupId 0
  let adjacency := UnorderedMap.subscript r.threadgroupAdjacencyList threadgroupId
  if adjacency.indegree = 0 then
    match (UnorderedMap.subscript r.threadgroupCallbackMap threadgroupId).callbacks with
    | [] => .error .undefinedBehaviour
    | first :: _ =>
        (rootNumThreads (UnorderedMap.subscript r.adjacencyList first)).map
          (r.setNumThreads threadgroupId)
  else
    .ok (adjacency.incoming.foldl
      (fun r prev => r.setNumThreads threadgroupId (r.numThreadsOf threadgroupId + r.numThreadsOf prev))
      r)

def recursiveThreadgroupTraversal : Nat → Nat → CallbackRegistry → Except Thrown CallbackRegistry
  | 0, _, r => .error ⟨.stackOverflow, r⟩
  | stack + 1, threadgroupId, r =>
      match r.updateNumThreads threadgroupId with
      | .error error => .error ⟨error, r⟩
      | .ok r =>
          (UnorderedMap.subscript r.threadgroupAdjacencyList threadgroupId).outgoing.foldlM
            (fun r next => recursiveThreadgroupTraversal stack next r) r

/-- The thread-count loop of `callback_threadgroup_allocation`. -/
def countThreads (stack : Nat) (r : CallbackRegistry) : Except Thrown CallbackRegistry :=
  r.threadgroupAdjacencyList.entries.foldlM
    (fun r entry =>
      if entry.2.indegree = 0 ∧
          (UnorderedMap.subscript r.threadgroupCallbackMap entry.1).isMutexGroup = false then
        recursiveThreadgroupTraversal stack entry.1 r
      else .ok r)
    r

/-! ## Export -/

def attributesOf (info : ThreadGroupInfo) : ThreadGroupAttributes :=
  { tgId := info.threadgroupId, numberOfThreads := info.numThreads.val,
    priority := info.fixedPriority.val, isMutexGroup := info.isMutexGroup }

/-- The two exported maps; the registry is emptied once both are complete. -/
def exportTimingInformation (r : CallbackRegistry) :
    Except Thrown (TimingExport × CallbackRegistry) := do
  let threadgroupAttributes := r.threadgroupCallbackMap.entries.foldl
    (fun attributes entry =>
      UnorderedMap.emplace attributes entry.2.threadgroupId (attributesOf entry.2)) ∅
  let callbackHandleToThreadgroupId ← r.callbackMap.entries.foldlM
    (fun (handles : UnorderedMap Ptr Nat) entry =>
      if entry.2.threadgroupId = 0 then
        .error ⟨.runtimeError ("Callback " ++ entry.2.callbackName ++
          " has not been assigned to any threadgroup"), r⟩
      else .ok (handles.insert entry.2.entity.rawPointer entry.2.threadgroupId)) ∅
  return ({ callbackHandleToThreadgroupId, threadgroupAttributes }, {})

/-- `callback_threadgroup_allocation`. -/
def callbackThreadgroupAllocation (order : IterationOrder) (stack : Nat) (r : CallbackRegistry) :
    Except Thrown (TimingExport × CallbackRegistry) := do
  let s ← traverseRoots stack { r with adjacencyList := order.adjacencyList r.adjacencyList }
  let r := assignFixedPriorities s
  let r ← countThreads stack
    { r with threadgroupAdjacencyList := order.threadgroupAdjacencyList r.threadgroupAdjacencyList }
  exportTimingInformation r

end CallbackRegistry

end PreemptiveExecutor
