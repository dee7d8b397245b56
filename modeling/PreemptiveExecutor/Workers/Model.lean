/-
# Workers.Model — one worker group, its threads and its dispatcher

The atomic steps of `WorkerGroup::worker_main`, of `MutexGroup::update_prio` and
of the part of `populate_ready_queues` that hands a batch to the group, as a
transition system (`WorkerGroup.step`).  A thread is the point of `worker_main`
it has reached; a label names the party that moves and, where the language or
the queue leaves a choice, which one is taken.

Of the vendored queue the model has what a single producer sees: a FIFO list,
each element handed to one consumer, and a `try_dequeue` that on a nonempty
queue fails at most 10 times in a row.  Semaphore and counter are unbounded.
`enqueued`, `started` and `finished` are logs that no step reads.

When `~WorkerGroup` runs, `~MutexGroup` has run, and a call of `update_prio` that begins
after it is the empty one of the base class.  Here it stays that of the mutex group: a
destroyed group may still change its flag and the priority of its thread where the code
leaves both alone.  No other step reads either.
-/
import PreemptiveExecutor.Theory.Transition
import PreemptiveExecutor.Theory.ThreadPool

namespace PreemptiveExecutor

open Theory

set_option autoImplicit false

def maxFifoPrio : Nat := 99

/-! ## Program points -/

/-- Where a call of `MutexGroup::update_prio` is. -/
inductive UpdatePrio where
  | loadPending
  | loadBoosted (shouldBoost : Bool)
  | setFifoPrio (shouldBoost : Bool)
  | storeBoosted (shouldBoost : Bool)
  deriving DecidableEq, Repr

/-- Where a thread is in `worker_main`.  `failedAttempts` is the local of that
name; `spurious` counts the failures in a row on a nonempty queue. -/
inductive Worker (β : Type) where
  | waiting
  | acquired
  | dequeuing (failedAttempts spurious : Nat)
  | dequeued (exec : Option β)
  | running (exec : β)
  | ran (exec : β)
  | updating (point : UpdatePrio)
  | exited
  | threw (what : String)
  deriving DecidableEq, Repr

/-- Where the dispatcher is with the batch of `n` bundles it hands to the group. -/
inductive Dispatcher where
  | idle
  | enqueued (n : Nat)
  | updating (n : Nat) (point : UpdatePrio)
  | releasing (n : Nat)
  | threw (what : String)
  deriving DecidableEq, Repr

/-- Between two batches, or out of `populate_ready_queues` by an exception. -/
def Dispatcher.stopped : Dispatcher → Bool
  | .idle => true
  | .threw _ => true
  | _ => false

/-! ## The group -/

structure WorkerGroup (β : Type) where
  priority : Nat
  isMutexGroup : Bool
  threads : List (Worker β)
  threadPriority : Nat
  semaphore : Nat := 0
  queue : List (Option β) := []
  numPending : Int := 0
  isBoosted : Bool := false
  dispatcher : Dispatcher := .idle
  ok : Bool := true
  spinning : Bool := true
  destroyed : Bool := false
  enqueued : List β := []
  started : List β := []
  finished : List β := []

namespace WorkerGroup

variable {β : Type}

/-- The group as its constructor leaves it: each thread at the top of
`worker_main`, with the group's priority set on it. -/
def spawn (isMutexGroup : Bool) (priority numberOfThreads : Nat) : WorkerGroup β :=
  { priority, isMutexGroup, threads := List.replicate numberOfThreads .waiting,
    threadPriority := priority }

/-- `MutexGroup::MutexGroup`. -/
def spawnMutexGroup (priority : Nat) : WorkerGroup β := spawn true priority 1

def setThread (g : WorkerGroup β) (i : Nat) (w : Worker β) : WorkerGroup β :=
  { g with threads := g.threads.set i w }

/-! ## `update_prio` -/

/-- How one step of `update_prio` ends. -/
inductive UpdatePrioResult where
  | inside (point : UpdatePrio)
  | returned
  | threw (what : String)
  deriving DecidableEq, Repr

/-- The virtual call: the base class has an empty body.  `destroyed` does not change which
body is called, as it does in the code. -/
def callUpdatePrio (g : WorkerGroup β) : UpdatePrioResult :=
  if g.isMutexGroup then .inside .loadPending else .returned

/-- One step of `MutexGroup::update_prio`. -/
def updatePrio (g : WorkerGroup β) : UpdatePrio → UpdatePrioResult × WorkerGroup β
  | .loadPending => (.inside (.loadBoosted (1 < g.numPending)), g)
  | .loadBoosted shouldBoost =>
      if shouldBoost = g.isBoosted then (.returned, g)
      else if g.threads.length ≠ 1 then
        (.threw "MutexGroup with multiple threads- invalid state", g)
      else (.inside (.setFifoPrio shouldBoost), g)
  | .setFifoPrio shouldBoost =>
      (.inside (.storeBoosted shouldBoost),
        { g with threadPriority := if shouldBoost then maxFifoPrio else g.priority })
  | .storeBoosted shouldBoost => (.returned, { g with isBoosted := shouldBoost })

/-! ## Steps -/

inductive WorkerAction where
  | acquire
  | check
  | tryDequeue
  | tryDequeueFails
  | startRun
  | finishRun
  | fetchSub
  | updatePrio
  deriving DecidableEq, Repr

inductive Label (β : Type) where
  | enqueueBulk (bundles : List β)
  | fetchAdd
  | dispatcherUpdatePrio
  | release
  | worker (i : Nat) (action : WorkerAction)
  | setOk (ok : Bool)
  | setSpinning (spinning : Bool)
  | destroy
  deriving DecidableEq, Repr

/-- A worker goes on after (a step of) its `update_prio`. -/
def workerAfter : UpdatePrioResult → Worker β
  | .inside point => .updating point
  | .returned => .waiting
  | .threw what => .threw what

def dispatcherAfter (n : Nat) : UpdatePrioResult → Dispatcher
  | .inside point => .updating n point
  | .returned => .releasing n
  | .threw what => .threw what

def readyQueueInvalid : String := "Ready Q state invalid"

/-- `failed_attempts++ > 10` after a `try_dequeue` that returned false. -/
def dequeueFailed (failedAttempts spurious : Nat) : Worker β :=
  if 10 < failedAttempts then .threw readyQueueInvalid else .dequeuing (failedAttempts + 1) spurious

/-- One step of thread `i`, which is at program point `w`. -/
def workerStep (g : WorkerGroup β) (i : Nat) : Worker β → WorkerAction → Option (WorkerGroup β)
  | .waiting, .acquire =>
      if 0 < g.semaphore then some ({ g with semaphore := g.semaphore - 1 }.setThread i .acquired)
      else none
  | .acquired, .check =>
      some (g.setThread i (if !g.ok || !g.spinning then .exited else .dequeuing 0 0))
  | .dequeuing _ _, .tryDequeue =>
      match g.queue with
      | [] => none
      | exec :: queue => some ({ g with queue }.setThread i (.dequeued exec))
  | .dequeuing failedAttempts spurious, .tryDequeueFails =>
      if g.queue = [] then some (g.setThread i (dequeueFailed failedAttempts 0))
      else if spurious < 10 then some (g.setThread i (dequeueFailed failedAttempts (spurious + 1)))
      else none
  | .dequeued none, .startRun => some (g.setThread i (.threw readyQueueInvalid))
  | .dequeued (some exec), .startRun =>
      some ({ g with started := g.started ++ [exec] }.setThread i (.running exec))
  | .running exec, .finishRun =>
      some ({ g with finished := g.finished ++ [exec] }.setThread i (.ran exec))
  | .ran _, .fetchSub =>
      some ({ g with numPending := g.numPending - 1 }.setThread i (workerAfter g.callUpdatePrio))
  | .updating point, .updatePrio =>
      some ((g.updatePrio point).2.setThread i (workerAfter (g.updatePrio point).1))
  | _, _ => none

/-- One step of the group.  A batch is handed over only while the group exists,
and empty batches are skipped; the destructor runs after `spin` has ended, which
left `spinning` false, and `spinning` cannot change after that. -/
def step (g : WorkerGroup β) : Label β → Option (WorkerGroup β)
  | .enqueueBulk bundles =>
      if g.dispatcher = .idle ∧ !bundles.isEmpty ∧ g.destroyed = false then
        some { g with
          queue := g.queue ++ bundles.map some
          enqueued := g.enqueued ++ bundles
          dispatcher := .enqueued bundles.length }
      else none
  | .fetchAdd =>
      match g.dispatcher with
      | .enqueued n =>
          some { g with
            numPending := g.numPending + n
            dispatcher := dispatcherAfter n g.callUpdatePrio }
      | _ => none
  | .dispatcherUpdatePrio =>
      match g.dispatcher with
      | .updating n point =>
          some { (g.updatePrio point).2 with dispatcher := dispatcherAfter n (g.updatePrio point).1 }
      | _ => none
  | .release =>
      match g.dispatcher with
      | .releasing n => some { g with semaphore := g.semaphore + n, dispatcher := .idle }
      | _ => none
  | .worker i action => (g.threads[i]?).bind fun w => g.workerStep i w action
  | .setOk ok => some { g with ok }
  | .setSpinning spinning =>
      if g.destroyed = false then some { g with spinning } else none
  | .destroy =>
      if g.spinning = false ∧ g.destroyed = false ∧ g.dispatcher.stopped then
        some { g with semaphore := g.semaphore + g.threads.length, destroyed := true }
      else none

/-- The runs of a group that was spawned with these arguments. -/
def system (β : Type) (isMutexGroup : Bool) (priority numberOfThreads : Nat) :
    Transition (WorkerGroup β) (Label β) where
  Init g := g = spawn isMutexGroup priority numberOfThreads
  step := step

end WorkerGroup

end PreemptiveExecutor
