/-
# Registry.Model — callback entities, callback groups, user chains and the registry

The data `CallbackRegistry` works on.  What comes from the middleware is reduced
to what the registry reads of it: a shared pointer is the address it holds, a
callback group is its address, its type, its `can_be_taken_from` flag and the
entities `collect_all_ptrs` visits.  Fixed-width integers are `Fin (2 ^ w)`, so
`indegree + 1` wraps at 256 as `std::uint8_t` does.  Threadgroup ids are drawn
from a counter that starts at 1, and 0 means "none yet".

`CallbackRegistry.construct` is the constructor: it scans the callback groups
for pre-registered entities and builds the adjacency list of the user chains.
-/
import Mathlib.Data.ZMod.Defs
import Mathlib.Order.Fin.Basic
import PreemptiveExecutor.Theory.UnorderedMap

namespace PreemptiveExecutor

open Theory

set_option autoImplicit false

abbrev Ptr := Nat
abbrev Uint8 := Fin (2 ^ 8)
abbrev Uint16 := Fin (2 ^ 16)
abbrev Uint32 := Fin (2 ^ 32)

instance instNeZeroUint8 : NeZero (2 ^ 8) := ⟨by decide⟩
instance instNeZeroUint16 : NeZero (2 ^ 16) := ⟨by decide⟩
instance instNeZeroUint32 : NeZero (2 ^ 32) := ⟨by decide⟩

/-- How a call ends when it does not return: a thrown `std::runtime_error`, an
exception of the middleware that nothing here catches, undefined behaviour, or a
recursion that needs more stack than there is. -/
inductive Error where
  | runtimeError (what : String)
  | middleware
  | undefinedBehaviour
  | stackOverflow
  deriving DecidableEq, Repr

/-! ## Callback entities and groups -/

inductive CallbackEntityType where
  | subscription
  | timer
  | service
  | client
  | waitable
  deriving DecidableEq, Repr

/-- `rawPointer` is what `get_raw_pointer` returns; equality and hash of entities
look at it only. -/
structure CallbackEntity where
  type : CallbackEntityType
  rawPointer : Ptr
  deriving DecidableEq, Repr

inductive CallbackGroupType where
  | mutuallyExclusive
  | reentrant
  deriving DecidableEq, Repr

structure CallbackGroup where
  ptr : Ptr
  type : CallbackGroupType
  canBeTakenFrom : Bool
  subscriptions : List Ptr
  services : List Ptr
  clients : List Ptr
  timers : List Ptr
  waitables : List Ptr
  deriving DecidableEq, Repr

/-- The entities of a group in the order `collect_all_ptrs` hands them out. -/
def CallbackGroup.collectAllPtrs (group : CallbackGroup) : List CallbackEntity :=
  group.subscriptions.map (⟨.subscription, ·⟩) ++ group.services.map (⟨.service, ·⟩) ++
    group.clients.map (⟨.client, ·⟩) ++ group.timers.map (⟨.timer, ·⟩) ++
    group.waitables.map (⟨.waitable, ·⟩)

/-- One pair of a `WeakCallbackGroupsToNodesMap`, as `lock()` finds it: `none`
for an expired group or node. -/
structure WeakGroupEntry where
  group : Option CallbackGroup
  node : Option Ptr
  deriving DecidableEq, Repr

abbrev WeakCallbackGroupsToNodesMap := List WeakGroupEntry

/-- A group that the scans of the map do not skip has the entity: live, takeable,
and with a live node. -/
def FoundIn (weakGroupsToNodes : WeakCallbackGroupsToNodesMap) (entity : CallbackEntity) : Prop :=
  ∃ group node, (⟨some group, some node⟩ : WeakGroupEntry) ∈ weakGroupsToNodes ∧
    group.canBeTakenFrom = true ∧ entity ∈ group.collectAllPtrs

/-! ## User chains -/

structure UserChain where
  chainName : String
  callbacks : List String
  deadline : Uint32
  period : Uint32
  deriving DecidableEq, Repr

/-! ## The registry -/

structure CallbackInfo where
  entity : CallbackEntity
  callbackGroup : CallbackGroup
  node : Ptr
  callbackName : String
  threadgroupId : Nat := 0
  deriving DecidableEq, Repr

structure ThreadGroupInfo where
  threadgroupId : Nat := 0
  callbacks : List String := []
  fixedPriority : Uint16 := 0
  numThreads : Uint16 := 1
  isMutexGroup : Bool := false
  deriving DecidableEq, Repr, Inhabited

structure CallbackAdjacencyInfo where
  outgoing : List String := []
  indegree : Uint8 := 0
  deadlines : List Uint32 := []
  periods : List Uint32 := []
  minDeadline : Uint32 := Fin.last _
  deriving DecidableEq, Repr

/-- A value-initialised record: `min_deadline` starts at `UINT32_MAX`. -/
instance : Inhabited CallbackAdjacencyInfo := ⟨{}⟩

structure ThreadGroupAdjacencyInfo where
  outgoing : List Nat := []
  incoming : List Nat := []
  deriving DecidableEq, Repr, Inhabited

/-- `incoming.size()` narrowed to the 8-bit result type. -/
def ThreadGroupAdjacencyInfo.indegree (info : ThreadGroupAdjacencyInfo) : Uint8 :=
  Fin.ofNat _ info.incoming.length

abbrev AdjacencyList := UnorderedMap String CallbackAdjacencyInfo
abbrev ThreadgroupAdjacencyList := UnorderedMap Nat ThreadGroupAdjacencyInfo

namespace AdjacencyList

/-- The outgoing edges of a callback, in iteration order. -/
def outgoing (adjacencyList : AdjacencyList) (callbackName : String) : List String :=
  (UnorderedMap.subscript adjacencyList callbackName).outgoing

/-- The stored 8-bit indegree. -/
def indegree (adjacencyList : AdjacencyList) (callbackName : String) : Uint8 :=
  (UnorderedMap.subscript adjacencyList callbackName).indegree

def minDeadline (adjacencyList : AdjacencyList) (callbackName : String) : Uint32 :=
  (UnorderedMap.subscript adjacencyList callbackName).minDeadline

end AdjacencyList

/-- `pre_registered_names_`: keyed by the raw pointer of the entity. -/
abbrev PreRegisteredNames := UnorderedMap Ptr String

structure CallbackRegistry where
  adjacencyList : AdjacencyList := ∅
  threadgroupAdjacencyList : ThreadgroupAdjacencyList := ∅
  mutexThreadgroupMap : UnorderedMap Ptr Nat := ∅
  callbackMap : UnorderedMap String CallbackInfo := ∅
  threadgroupCallbackMap : UnorderedMap Nat ThreadGroupInfo := ∅
  nextThreadgroupId : Nat := 1

/-- The group of a callback is a MutuallyExclusive one. -/
def CallbackInfo.isMutex (info : CallbackInfo) : Bool :=
  info.callbackGroup.type == .mutuallyExclusive

/-! ## Construction -/

namespace CallbackRegistry

def registerCallbackEntity (preRegistered : PreRegisteredNames) (group : CallbackGroup) (node : Ptr)
    (callbackMap : UnorderedMap String CallbackInfo) (entity : CallbackEntity) :
    UnorderedMap String CallbackInfo :=
  match preRegistered.lookup entity.rawPointer with
  | none => callbackMap
  | some callbackName =>
      UnorderedMap.emplace callbackMap callbackName
        { entity, callbackGroup := group, node, callbackName }

def scanGroup (preRegistered : PreRegisteredNames) (callbackMap : UnorderedMap String CallbackInfo)
    (entry : WeakGroupEntry) : UnorderedMap String CallbackInfo :=
  match entry.group, entry.node with
  | some group, some node =>
      if group.canBeTakenFrom then
        group.collectAllPtrs.foldl (registerCallbackEntity preRegistered group node) callbackMap
      else callbackMap
  | _, _ => callbackMap

/-- The body of the chain loop for the callback after `previous`. -/
def addCallback (deadline period : Uint32) (previous : Option String) (callback : String)
    (adjacencyList : AdjacencyList) : AdjacencyList :=
  let adjacencyList := match previous with
    | none => adjacencyList
    | some before =>
        UnorderedMap.update
          (UnorderedMap.update adjacencyList before fun info =>
            { info with outgoing := info.outgoing.insert callback })
          callback fun info => { info with indegree := info.indegree + 1 }
  UnorderedMap.update adjacencyList callback fun info =>
    { info with
      deadlines := info.deadlines ++ [deadline]
      periods := info.periods ++ [period]
      minDeadline := min info.minDeadline deadline }

def addCallbacks (deadline period : Uint32) :
    Option String → List String → AdjacencyList → AdjacencyList
  | _, [], adjacencyList => adjacencyList
  | previous, callback :: rest, adjacencyList =>
      addCallbacks deadline period (some callback) rest
        (addCallback deadline period previous callback adjacencyList)

/-- One user chain.  `callbacks[0]` of an empty chain is read out of bounds; a
single callback has its whole record replaced by an empty one. -/
def addChain (adjacencyList : AdjacencyList) (chain : UserChain) : Except Error AdjacencyList :=
  match chain.callbacks with
  | [] => .error .undefinedBehaviour
  | [callback] => .ok (adjacencyList.insert callback {})
  | callbacks => .ok (addCallbacks chain.deadline chain.period none callbacks adjacencyList)

/-- `CallbackRegistry::CallbackRegistry`; both lists are in iteration order. -/
def construct (preRegistered : PreRegisteredNames) (weakGroupsToNodes : WeakCallbackGroupsToNodesMap)
    (userChains : List UserChain) : Except Error CallbackRegistry := do
  let callbackMap := weakGroupsToNodes.foldl (scanGroup preRegistered) ∅
  let adjacencyList ← userChains.foldlM addChain ∅
  return { callbackMap, adjacencyList }

/-- The scan gives the callback map, the chains the adjacency list, and the rest stays
empty. -/
theorem construct_ok {preRegistered : PreRegisteredNames} {weakGroupsToNodes : WeakCallbackGroupsToNodesMap}
    {userChains : List UserChain} {r : CallbackRegistry}
    (constructed : construct preRegistered weakGroupsToNodes userChains = .ok r) :
    ∃ adjacencyList, userChains.foldlM addChain (∅ : AdjacencyList) = .ok adjacencyList ∧
      r = { callbackMap := weakGroupsToNodes.foldl (scanGroup preRegistered) ∅, adjacencyList } := by
  unfold construct at constructed
  cases chains : userChains.foldlM addChain (∅ : AdjacencyList) with
  | error error => rw [chains] at constructed; cases constructed
  | ok adjacencyList =>
      rw [chains] at constructed
      cases constructed
      exact ⟨adjacencyList, rfl, rfl⟩

end CallbackRegistry

end PreemptiveExecutor
