/-
# Executor.Loans — the loaned messages, from the take to the end of their bundles

`LoanedMsgSubscription::take_and_bundle` takes a message that the middleware lends,
and only the end of `LoanedMsgSubscription::run` gives it back: the class has no
destructor.  So the running executor gets a ledger of the loaned messages obtained
and returned and of those whose bundle is destroyed (`LoanedExecutor`).  A bundle is
destroyed

* by `populate_ready_queues`, if its handle is unknown or an exception leaves the
  call while the call has it;
* by the worker that has run it;
* with the queue of its worker group, when `~WorkerGroup` has joined its threads.
-/
import PreemptiveExecutor.Executor.ExactDispatch
import PreemptiveExecutor.Workers.Shutdown

namespace PreemptiveExecutor

open Theory

set_option autoImplicit false

/-- A message on loan from the middleware. -/
structure Loan where
  subscription : Ptr
  loanedMsg : Ptr
  deriving DecidableEq, Repr

namespace BundledExecutable

/-- The loaned message that a bundle has. -/
def loan : BundledExecutable → Option Loan
  | .loanedMsgSubscription subscription loanedMsg => some ⟨subscription, loanedMsg⟩
  | _ => none

/-- `run`, after the handler has returned: the messages that
`rcl_return_loaned_message_from_subscription` is called with. -/
def run : BundledExecutable → List Loan
  | .loanedMsgSubscription subscription loanedMsg => [⟨subscription, loanedMsg⟩]
  | .genericMsgSubscription _ _ => []
  | .serializedMsgSubscription _ _ => []
  | .bundledTimer _ => []

end BundledExecutable

def loans (bundles : List BundledExecutable) : List Loan := bundles.filterMap BundledExecutable.loan

/-! ## The bundles of a worker group -/

/-- The bundle in the local `exec`. -/
def Worker.exec {β : Type} : Worker β → Option β
  | .dequeued exec => exec
  | .running exec => some exec
  | .ran exec => some exec
  | _ => none

/-- The bundle in `exec` after its `run`. -/
def Worker.hasRun {β : Type} : Worker β → Option β
  | .ran exec => some exec
  | _ => none

/-- The bundle whose `run` a step of the thread ends. -/
def Worker.finishes {β : Type} : Worker β → WorkerGroup.WorkerAction → List β
  | .running exec, .finishRun => [exec]
  | _, _ => []

/-- The bundle that goes out of scope.  In `worker_main` that is after the `update_prio`
that follows `fetch_sub`, here it is at the `fetch_sub`. -/
def Worker.letsGo {β : Type} : Worker β → WorkerGroup.WorkerAction → List β
  | .ran exec, .fetchSub => [exec]
  | _, _ => []

namespace WorkerGroup

variable {β : Type}

/-- All bundles that the group has, in its queue or at a thread. -/
def bundles (g : WorkerGroup β) : List β := g.queued ++ g.threads.filterMap Worker.exec

def ranBundles (g : WorkerGroup β) : List β := g.threads.filterMap Worker.hasRun

end WorkerGroup

/-! ## The ledger -/

/-- The running executor, with what has become of the loaned messages. -/
structure LoanedExecutor where
  executor : RunningExecutor
  obtained : List Loan := []
  returned : List Loan := []
  destroyed : List Loan := []

/-- A step of the running executor, or the end of a worker group: its threads are
joined, and its members destroyed. -/
inductive LoanLabel where
  | step (label : SystemLabel)
  | join (tgid : Nat)

namespace RunningExecutor

/-- What `event` says about a step of a worker. -/
def ofWorker (s : RunningExecutor)
    (event : Worker BundledExecutable → WorkerGroup.WorkerAction → List BundledExecutable) :
    SystemLabel → List BundledExecutable
  | .worker tgid i action =>
      match (s.groups tgid).bind fun g => g.threads[i]? with
      | some w => event w action
      | none => []
  | _ => []

/-- What `populate_ready_queues` has and an exception destroys as it leaves. -/
def unwound (s s' : RunningExecutor) : List BundledExecutable :=
  match s'.cycle with
  | .threw _ => s.cycle.pending.flatMap Prod.snd
  | _ => []

/-- The worker map has all its worker groups. -/
def Whole (s : RunningExecutor) (e : ExecutorState) : Prop :=
  ∀ tgid ∈ e.threadGroupIdWorkerMap.keys, (s.groups tgid).isSome = true

instance (s : RunningExecutor) (e : ExecutorState) : Decidable (s.Whole e) :=
  inferInstanceAs (Decidable (∀ tgid ∈ e.threadGroupIdWorkerMap.keys, (s.groups tgid).isSome = true))

end RunningExecutor

namespace ExecutorState

/-- The bundles that the `take_and_bundle` of the subscriptions returns in a step. -/
def bundled (e : ExecutorState) (s : RunningExecutor) (label : SystemLabel) : List BundledExecutable :=
  (e.takesOf s label).flatMap ReadySubscription.taken

/-- The bundles with messages that a step of the dispatcher destroys. -/
def discarded (e : ExecutorState) (s s' : RunningExecutor) : SystemLabel → List BundledExecutable
  | .populate ready choices =>
      match s'.cycle with
      | .threw _ => e.bundled s (.populate ready choices)
      | .dispatching _ =>
          match collectBundles e.callbackHandleToThreadgroupId ready with
          | .ok collected => collected.dropped
          | .error _ => []
      | _ => []
  | .nextBatch _ => s.unwound s'
  | .updatePrio => s.unwound s'
  | _ => []

/-- `populate_ready_queues` is called only while the worker map is whole. -/
def loanStep (e : ExecutorState) (p : LoanedExecutor) : LoanLabel → Option LoanedExecutor
  | .step label =>
      match label with
      | .populate _ _ => if p.executor.Whole e then record label else none
      | _ => record label
  | .join tgid =>
      match p.executor.groups tgid with
      | some g =>
          if g.destroyed ∧ g.threads.all Worker.isExited then
            some { p with
              executor := { p.executor with groups := Function.update p.executor.groups tgid none }
              destroyed := p.destroyed ++ loans g.queued }
          else none
      | none => none
where
  record (label : SystemLabel) : Option LoanedExecutor :=
    (e.systemStep p.executor label).map fun s' =>
      { executor := s'
        obtained := p.obtained ++ loans (e.bundled p.executor label)
        returned := p.returned ++ (p.executor.ofWorker Worker.finishes label).flatMap BundledExecutable.run
        destroyed := p.destroyed ++
          loans (e.discarded p.executor s' label ++ p.executor.ofWorker Worker.letsGo label) }

end ExecutorState

end PreemptiveExecutor
