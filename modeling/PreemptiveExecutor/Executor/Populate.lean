/-
# Executor.Populate — `populate_ready_queues`

The call from the point where `take_ready_handles` has answered: the two bundling
loops (`collectBundles`) and the dispatch loop (`dispatchBundles`), without
worker steps in between.  A bundle that is dropped with a warning is kept in
`dropped`, so that nothing disappears from the model without a trace.

The iteration order of `bundles_by_tgid` and the outcome of `enqueue_bulk` are
parameters (`DispatchChoices`).
-/
import PreemptiveExecutor.Executor.Startup

namespace PreemptiveExecutor

open Theory

set_option autoImplicit false

/-- What `take_ready_handles` reports. -/
structure ReadyHandles where
  subscriptions : List ReadySubscription
  timers : List ReadyTimer

abbrev BundlesByTgid := UnorderedMap Nat (List BundledExecutable)

/-- The state of the bundling loops. -/
structure Collected where
  bundlesByTgid : BundlesByTgid := ∅
  dropped : List BundledExecutable := []

abbrev Workers := UnorderedMap Nat (WorkerGroup BundledExecutable)

/-- An iteration order of `bundles_by_tgid`, and whether `enqueue_bulk` finds
memory for the batch of a threadgroup. -/
structure DispatchChoices where
  order : BundlesByTgid → BundlesByTgid
  order_same : ∀ bundles, UnorderedMap.SameEntries (fun a b => a = b) bundles (order bundles)
  enqueueOk : Nat → Bool

/-- A lookup through `callback_handle_to_threadgroup_id`, which is null until
timing information has been loaded. -/
def lookupHandle (handles : Option (UnorderedMap Ptr Nat)) (handle : Ptr) : Except Error (Option Nat) :=
  match handles with
  | none => .error .undefinedBehaviour
  | some handles => .ok (handles.lookup handle)

def Collected.emplaceBundle (c : Collected) (tgid : Nat) (bundle : BundledExecutable) : Collected :=
  { c with bundlesByTgid := UnorderedMap.update c.bundlesByTgid tgid fun bundles => bundles ++ [bundle] }

/-- The body of the loop over the ready subscriptions. -/
def collectSubscription (handles : Option (UnorderedMap Ptr Nat)) (c : Collected)
    (subscription : ReadySubscription) : Except Error Collected := do
  match ← subscription.takeAndBundle with
  | none => return c
  | some bundle =>
      match ← lookupHandle handles bundle.getRawHandle with
      | none => return { c with dropped := c.dropped ++ [bundle] }
      | some tgid => return c.emplaceBundle tgid bundle

def timerHandleNotFound : Error := .runtimeError "Timer callback handle not found in timing info."

/-- The body of the loop over the ready timers. -/
def collectTimer (handles : Option (UnorderedMap Ptr Nat)) (c : Collected) (timer : ReadyTimer) :
    Except Error Collected := do
  match timer.takeAndBundle with
  | none => return c
  | some bundle =>
      match ← lookupHandle handles bundle.getRawHandle with
      | none => .error timerHandleNotFound
      | some tgid => return c.emplaceBundle tgid bundle

def collectBundles (handles : Option (UnorderedMap Ptr Nat)) (ready : ReadyHandles) :
    Except Error Collected := do
  let c ← ready.subscriptions.foldlM (collectSubscription handles) {}
  ready.timers.foldlM (collectTimer handles) c

/-! ## The dispatch loop -/

def unknownThreadGroup (tgid : Nat) : Error :=
  .runtimeError ("Unknown thread group id " ++ toString tgid ++ " when dispatching rexady bundles")

def enqueueFailed (tgid : Nat) : Error :=
  .runtimeError ("Failed to enqueue ready bundles to worker group (out of memory) " ++ toString tgid)

namespace WorkerGroup

/-- A call of `update_prio` that nothing interrupts. -/
def updatePrioAtOnce {β : Type} (g : WorkerGroup β) : Except Error (WorkerGroup β) :=
  let shouldBoost := decide (1 < g.numPending)
  if g.isMutexGroup = false ∨ shouldBoost = g.isBoosted then .ok g
  else if g.threads.length ≠ 1 then
    .error (.runtimeError "MutexGroup with multiple threads- invalid state")
  else
    .ok { g with
      threadPriority := if shouldBoost then maxFifoPrio else g.priority
      isBoosted := shouldBoost }

end WorkerGroup

/-- The body of the dispatch loop.  The workers of an error are the ones it leaves. -/
def dispatchBatch (choices : DispatchChoices) (workers : Workers) (tgid : Nat)
    (bundles : List BundledExecutable) : Except (Error × Workers) Workers :=
  if bundles.isEmpty then .ok workers
  else
    match workers.lookup tgid with
    | none => .error (unknownThreadGroup tgid, workers)
    | some g =>
        if !choices.enqueueOk tgid then .error (enqueueFailed tgid, workers)
        else
          let g := { g with
            queue := g.queue ++ bundles.map some
            enqueued := g.enqueued ++ bundles
            numPending := g.numPending + bundles.length }
          match g.updatePrioAtOnce with
          | .error error => .error (error, workers.insert tgid g)
          | .ok g => .ok (workers.insert tgid { g with semaphore := g.semaphore + bundles.length })

def dispatchBundles (choices : DispatchChoices) (workers : Workers) (bundlesByTgid : BundlesByTgid) :
    Except (Error × Workers) Workers :=
  (choices.order bundlesByTgid).entries.foldlM
    (fun workers pair => dispatchBatch choices workers pair.1 pair.2) workers

/-- `populate_ready_queues`, on the worker map as the workers have left it. -/
def populateReadyQueues (handles : Option (UnorderedMap Ptr Nat)) (choices : DispatchChoices)
    (ready : ReadyHandles) (workers : Workers) : Except (Error × Workers) (Collected × Workers) :=
  if workers.keys.isEmpty then .ok ({}, workers)
  else
    match collectBundles handles ready with
    | .error error => .error (error, workers)
    | .ok collected =>
        (dispatchBundles choices workers collected.bundlesByTgid).map fun workers => (collected, workers)

end PreemptiveExecutor
