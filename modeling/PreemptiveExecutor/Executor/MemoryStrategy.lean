/-
# Executor.MemoryStrategy — `RTAllocatorMemoryStrategy` over one wait cycle

`clear_handles`, `collect_entities`, `remove_null_handles` and
`take_ready_handles`, in the order `spin` reaches them (`waitCycle`).  Handles
are addresses, and 0 is a null pointer: what `reset` leaves in a vector and what
`rcl_wait` leaves in a slot that is not ready.

The middleware is a parameter in two places: `handleOf` is the
`get_…_handle` of an entity, `isReady` the `is_ready` of a waitable.
-/
import PreemptiveExecutor.Theory.Drain
import PreemptiveExecutor.Registry.Model

namespace PreemptiveExecutor

open Theory

set_option autoImplicit false

/-- The arrays of an `rcl_wait_set_t` that the strategy reads. -/
structure WaitSet where
  subscriptions : List Ptr
  services : List Ptr
  clients : List Ptr
  timers : List Ptr

structure MemoryStrategy where
  subscriptionHandles : List Ptr := []
  serviceHandles : List Ptr := []
  clientHandles : List Ptr := []
  timerHandles : List Ptr := []
  waitableHandles : List Ptr := []

/-- What `take_ready_handles` reports. -/
structure Reported where
  readySubscriptions : List Ptr
  readyTimers : List Ptr

/-- The sets and result vectors while `take_ready_handles` scans the groups. -/
structure ReadyScan where
  subscriptions : Drain Ptr Ptr
  timers : Drain Ptr Ptr

namespace MemoryStrategy

def clearHandles (_ : MemoryStrategy) : MemoryStrategy := {}

/-! ## `collect_entities` -/

def collectEntity (handleOf : CallbackEntity → Ptr) (s : MemoryStrategy) (entity : CallbackEntity) :
    MemoryStrategy :=
  match entity.type with
  | .subscription => { s with subscriptionHandles := s.subscriptionHandles ++ [handleOf entity] }
  | .service => { s with serviceHandles := s.serviceHandles ++ [handleOf entity] }
  | .client => { s with clientHandles := s.clientHandles ++ [handleOf entity] }
  | .timer => { s with timerHandles := s.timerHandles ++ [handleOf entity] }
  | .waitable => { s with waitableHandles := s.waitableHandles ++ [entity.rawPointer] }

/-- The flag says that a group or a node has expired. -/
def collectGroup (handleOf : CallbackEntity → Ptr) (collected : Bool × MemoryStrategy)
    (entry : WeakGroupEntry) : Bool × MemoryStrategy :=
  match entry.group, entry.node with
  | some group, some _ =>
      if group.canBeTakenFrom then
        (collected.1, group.collectAllPtrs.foldl (collectEntity handleOf) collected.2)
      else collected
  | _, _ => (true, collected.2)

def collectEntities (handleOf : CallbackEntity → Ptr) (weakGroupsToNodes : WeakCallbackGroupsToNodesMap)
    (s : MemoryStrategy) : Bool × MemoryStrategy :=
  weakGroupsToNodes.foldl (collectGroup handleOf) (false, s)

/-! ## `remove_null_handles` -/

/-- `if (!slots[i]) handles[i].reset()` for every handle; there may be more slots
than handles, and fewer are read out of bounds. -/
def resetNull : List Ptr → List Ptr → Except Error (List Ptr)
  | [], _ => .ok []
  | _ :: _, [] => .error .undefinedBehaviour
  | handle :: handles, slot :: slots =>
      (resetNull handles slots).map fun rest => (if slot = 0 then 0 else handle) :: rest

/-- `handles.erase(std::remove(…, nullptr), …)`. -/
def eraseNull (handles : List Ptr) : List Ptr := handles.filter (· ≠ 0)

def removeNullHandles (isReady : WaitSet → Ptr → Bool) (waitSet : WaitSet) (s : MemoryStrategy) :
    Except Error MemoryStrategy := do
  let subscriptionHandles ← resetNull s.subscriptionHandles waitSet.subscriptions
  let serviceHandles ← resetNull s.serviceHandles waitSet.services
  let clientHandles ← resetNull s.clientHandles waitSet.clients
  let timerHandles ← resetNull s.timerHandles waitSet.timers
  let waitableHandles := s.waitableHandles.map fun waitable =>
    if !isReady waitSet waitable then 0 else waitable
  return {
    subscriptionHandles := eraseNull subscriptionHandles
    serviceHandles := eraseNull serviceHandles
    clientHandles := eraseNull clientHandles
    timerHandles := eraseNull timerHandles
    waitableHandles := eraseNull waitableHandles }

/-! ## `take_ready_handles` -/

/-- The callback for a subscription or a timer. -/
def takeReady (handleOf : Ptr → Ptr) (d : Drain Ptr Ptr) (entity : Ptr) : Drain Ptr Ptr :=
  if d.wanted = ∅ then d
  else if handleOf entity ≠ 0 ∧ handleOf entity ∈ d.wanted then
    { wanted := d.wanted.erase (handleOf entity), found := d.found ++ [entity] }
  else d

def takeEntity (handleOf : CallbackEntity → Ptr) (scan : ReadyScan) (entity : CallbackEntity) :
    ReadyScan :=
  match entity.type with
  | .subscription =>
      { scan with
        subscriptions := takeReady (fun ptr => handleOf ⟨.subscription, ptr⟩) scan.subscriptions
          entity.rawPointer }
  | .timer =>
      { scan with
        timers := takeReady (fun ptr => handleOf ⟨.timer, ptr⟩) scan.timers entity.rawPointer }
  | _ => scan

/-- Every live group is scanned, also one whose node has expired or that cannot be
taken from. -/
def takeGroup (handleOf : CallbackEntity → Ptr) (scan : ReadyScan) (entry : WeakGroupEntry) : ReadyScan :=
  match entry.group with
  | none => scan
  | some group => group.collectAllPtrs.foldl (takeEntity handleOf) scan

/-- The handles that are not null, as a set. -/
def readySet (handles : List Ptr) : Finset Ptr := (eraseNull handles).toFinset

def takeReadyHandles (handleOf : CallbackEntity → Ptr) (weakGroupsToNodes : WeakCallbackGroupsToNodesMap)
    (s : MemoryStrategy) : MemoryStrategy × Reported :=
  if s.subscriptionHandles.isEmpty && s.timerHandles.isEmpty then (s, ⟨[], []⟩)
  else
    let readySubscriptionHandles := readySet s.subscriptionHandles
    let readyTimerHandles := readySet s.timerHandles
    if readySubscriptionHandles = ∅ ∧ readyTimerHandles = ∅ then
      ({ s with subscriptionHandles := [], timerHandles := [] }, ⟨[], []⟩)
    else
      let scan := weakGroupsToNodes.foldl (takeGroup handleOf)
        ⟨{ wanted := readySubscriptionHandles }, { wanted := readyTimerHandles }⟩
      ({ s with subscriptionHandles := [], timerHandles := [] },
        ⟨scan.subscriptions.found, scan.timers.found⟩)

/-- One wait cycle: the entities are collected, the wait leaves `waitSet`, and the
ready ones are taken. -/
def waitCycle (handleOf : CallbackEntity → Ptr) (isReady : WaitSet → Ptr → Bool)
    (weakGroupsToNodes : WeakCallbackGroupsToNodesMap) (waitSet : WaitSet) (s : MemoryStrategy) :
    Except Error (MemoryStrategy × Reported) :=
  ((s.clearHandles.collectEntities handleOf weakGroupsToNodes).2.removeNullHandles isReady waitSet).map
    (takeReadyHandles handleOf weakGroupsToNodes)

end MemoryStrategy

end PreemptiveExecutor
