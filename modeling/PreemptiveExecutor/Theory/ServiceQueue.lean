/-
# Theory.ServiceQueue — a first-in first-out queue with several servers

Jobs are submitted in batches and wait in one line; a free server starts the first
of them, and completes it some time later.  Nothing here says when.

* `fifo`: the jobs started are the first ones submitted, so a job is overtaken only
  by those that were started before it and are still with a server.
* `inOrder`: with one server the jobs are completed in the order of submission.

A family of such queues, each job with one queue it may be submitted to, is
`RoutedQueues`.
-/
import Mathlib.Logic.Function.Basic
import PreemptiveExecutor.Theory.Refinement
import PreemptiveExecutor.Theory.ThreadPool

namespace PreemptiveExecutor.Theory

set_option autoImplicit false

/-- `serving` has one place for each server. -/
structure ServiceQueue (β : Type) where
  waiting : List β := []
  serving : List (Option β)
  served : List β := []
  deriving DecidableEq, Repr

inductive ServiceAction (β : Type) where
  | submit (jobs : List β)
  | start (server : Nat)
  | complete (server : Nat)
  deriving DecidableEq, Repr

/-- The jobs an action adds. -/
def ServiceAction.jobs {β : Type} : ServiceAction β → List β
  | .submit jobs => jobs
  | _ => []

namespace ServiceQueue

variable {β : Type}

def idle (servers : Nat) : ServiceQueue β := { serving := List.replicate servers none }

def step (q : ServiceQueue β) : ServiceAction β → Option (ServiceQueue β)
  | .submit jobs => some { q with waiting := q.waiting ++ jobs }
  | .start server =>
      match q.waiting, q.serving[server]? with
      | job :: waiting, some none => some { q with waiting, serving := q.serving.set server (some job) }
      | _, _ => none
  | .complete server =>
      match q.serving[server]? with
      | some (some job) =>
          some { q with serving := q.serving.set server none, served := q.served ++ [job] }
      | _ => none

def system (β : Type) (servers : Nat) : Transition (ServiceQueue β) (ServiceAction β) where
  Init q := q = idle servers
  step := step

/-- The jobs the servers have. -/
def inService (q : ServiceQueue β) : List β := q.serving.filterMap id

/-! ## What an action does -/

inductive Served (q : ServiceQueue β) : ServiceAction β → ServiceQueue β → Prop where
  | submit (jobs : List β) : Served q (.submit jobs) { q with waiting := q.waiting ++ jobs }
  | start {server : Nat} {job : β} {waiting : List β} (first : q.waiting = job :: waiting)
      (free : q.serving[server]? = some none) :
      Served q (.start server) { q with waiting, serving := q.serving.set server (some job) }
  | complete {server : Nat} {job : β} (busy : q.serving[server]? = some (some job)) :
      Served q (.complete server) { q with serving := q.serving.set server none, served := q.served ++ [job] }

theorem step_served {q q' : ServiceQueue β} {action : ServiceAction β} (stepped : q.step action = some q') :
    Served q action q' := by
  cases action with
  | submit jobs => cases stepped; exact .submit jobs
  | start server =>
      simp only [step] at stepped
      split at stepped
      · rename_i first free
        cases stepped
        exact .start first free
      · cases stepped
  | complete server =>
      simp only [step] at stepped
      split at stepped
      · rename_i busy
        cases stepped
        exact .complete busy
      · cases stepped

theorem step_servers {q q' : ServiceQueue β} {action : ServiceAction β} (stepped : q.step action = some q') :
    q'.serving.length = q.serving.length := by
  cases step_served stepped with
  | submit jobs => rfl
  | start first free => exact List.length_set
  | complete busy => exact List.length_set

/-! ## First in, first out -/

/-- The jobs started are an initial part of those submitted, and each of them is with
a server or served. -/
def Fifo (submitted : List β) (q : ServiceQueue β) : Prop :=
  ∃ started, submitted = started ++ q.waiting ∧ started.Perm (q.inService ++ q.served)

theorem inService_start {q : ServiceQueue β} {server : Nat} (free : q.serving[server]? = some none) (job : β) :
    (↑((q.serving.set server (some job)).filterMap id) : Multiset β) = ↑q.inService + ↑[job] :=
  (add_zero _).symm.trans (ThreadPool.filterMap_set free (some job) id)

theorem inService_complete {q : ServiceQueue β} {server : Nat} {job : β}
    (busy : q.serving[server]? = some (some job)) :
    (↑((q.serving.set server none).filterMap id) + ↑[job] : Multiset β) = ↑q.inService :=
  (ThreadPool.filterMap_set busy none id).trans (add_zero _)

theorem fifo_step {submitted : List β} {q q' : ServiceQueue β} {action : ServiceAction β}
    (fifo : Fifo submitted q) (stepped : q.step action = some q') : Fifo (submitted ++ action.jobs) q' := by
  obtain ⟨started, rfl, all⟩ := fifo
  rw [← Multiset.coe_eq_coe, ← Multiset.coe_add] at all
  cases step_served stepped with
  | submit jobs => exact ⟨started, List.append_assoc .., by rwa [← Multiset.coe_eq_coe, ← Multiset.coe_add]⟩
  | start first free =>
      rename_i server job waiting
      refine ⟨started ++ [job], by simp [first, ServiceAction.jobs], ?_⟩
      have moved := inService_start free job
      rw [← Multiset.coe_eq_coe, ← Multiset.coe_add, ← Multiset.coe_add, all]
      unfold inService at moved ⊢
      rw [moved]
      ac_rfl
  | complete busy =>
      refine ⟨started, List.append_nil _, ?_⟩
      rw [← Multiset.coe_eq_coe, ← Multiset.coe_add, all, ← inService_complete busy, ← Multiset.coe_add]
      unfold inService
      ac_rfl

/-- **Jobs are started in the order of submission.** -/
theorem run_fifo {servers : Nat} {actions : List (ServiceAction β)} {q : ServiceQueue β}
    (ran : (system β servers).run (idle servers) actions = some q) :
    Fifo (actions.flatMap ServiceAction.jobs) q ∧ q.serving.length = servers := by
  have start : Fifo ([] : List β) (idle servers) := ⟨[], rfl, by simp [idle, inService]⟩
  refine Transition.run_rule (T := system β servers)
    (fun actions q => Fifo (actions.flatMap ServiceAction.jobs) q ∧ q.serving.length = servers)
    (fun actions q action q' ⟨fifo, size⟩ stepped => ?_) ⟨start, List.length_replicate⟩ ran
  refine ⟨?_, (step_servers stepped).trans size⟩
  rw [List.flatMap_append, List.flatMap_singleton]
  exact fifo_step fifo stepped

/-- What servers hold is never more than one job each. -/
theorem inService_length_le (q : ServiceQueue β) : q.inService.length ≤ q.serving.length :=
  List.length_filterMap_le ..

/-- With one server nothing overtakes. -/
theorem inOrder_step {submitted : List β} {q q' : ServiceQueue β} {action : ServiceAction β}
    (one : q.serving.length = 1) (inOrder : q.served ++ q.inService ++ q.waiting = submitted)
    (stepped : q.step action = some q') :
    q'.served ++ q'.inService ++ q'.waiting = submitted ++ action.jobs := by
  obtain ⟨place, single⟩ := List.length_eq_one_iff.1 one
  have at_ : ∀ {server : Nat} {held : Option β}, q.serving[server]? = some held → server = 0 ∧ place = held := by
    intro server held found
    rw [single] at found
    cases server with
    | zero => exact ⟨rfl, Option.some.inj found⟩
    | succ server => cases found
  subst inOrder
  cases step_served stepped with
  | submit jobs => simp [inService, ServiceAction.jobs]
  | start first free =>
      obtain ⟨rfl, rfl⟩ := at_ free
      simp [inService, single, first, ServiceAction.jobs]
  | complete busy =>
      obtain ⟨rfl, rfl⟩ := at_ busy
      simp [inService, single, ServiceAction.jobs]

/-- **One server completes the jobs in the order of submission.** -/
theorem run_inOrder {actions : List (ServiceAction β)} {q : ServiceQueue β}
    (ran : (system β 1).run (idle 1) actions = some q) :
    q.served ++ q.inService ++ q.waiting = actions.flatMap ServiceAction.jobs := by
  refine (Transition.run_rule (T := system β 1)
    (fun actions q => q.serving.length = 1 ∧
      q.served ++ q.inService ++ q.waiting = actions.flatMap ServiceAction.jobs)
    (fun actions q action q' ⟨one, inOrder⟩ stepped => ?_) ⟨rfl, rfl⟩ ran).2
  refine ⟨(step_servers stepped).trans one, ?_⟩
  rw [List.flatMap_append, List.flatMap_singleton]
  exact inOrder_step one inOrder stepped

end ServiceQueue

/-! ## Routed queues -/

/-- One queue for some of the destinations. -/
abbrev RoutedQueues (ι β : Type) := ι → Option (ServiceQueue β)

namespace RoutedQueues

variable {ι β : Type}

/-- A job is submitted to the queue of its route only. -/
def step [DecidableEq ι] (route : β → Option ι) (queues : RoutedQueues ι β) (action : ι × ServiceAction β) :
    Option (RoutedQueues ι β) :=
  if ∀ job ∈ action.2.jobs, route job = some action.1 then
    (queues action.1).bind fun q => (q.step action.2).map fun q' => Function.update queues action.1 (some q')
  else none

def system [DecidableEq ι] (route : β → Option ι) (servers : ι → Option Nat) :
    Transition (RoutedQueues ι β) (ι × ServiceAction β) where
  Init queues := queues = fun i => (servers i).map ServiceQueue.idle
  step := step route

/-- Some actions of one queue, as actions of the family. -/
theorem run_at [DecidableEq ι] {route : β → Option ι} {servers : ι → Option Nat} {queues : RoutedQueues ι β}
    {i : ι} {q q' : ServiceQueue β} {n : Nat} {actions : List (ServiceAction β)} (at_ : queues i = some q)
    (jobs : ∀ action ∈ actions, ∀ job ∈ action.jobs, route job = some i)
    (ran : (ServiceQueue.system β n).run q actions = some q') :
    (system route servers).run queues (actions.map fun action => (i, action)) =
      some (Function.update queues i (some q')) := by
  induction actions generalizing queues q with
  | nil =>
      cases ran
      rw [← at_, Function.update_eq_self]
      rfl
  | cons action actions ih =>
      obtain ⟨here, later⟩ := List.forall_mem_cons.1 jobs
      rw [Transition.run_cons] at ran
      obtain ⟨q₁, stepped, ran⟩ := Option.bind_eq_some_iff.1 ran
      have moved : (system route servers).step queues (i, action) =
          some (Function.update queues i (some q₁)) := by
        change q.step action = some q₁ at stepped
        show step route queues (i, action) = _
        rw [step, if_pos here, at_, Option.bind_some, stepped, Option.map_some]
      rw [List.map_cons, Transition.run_cons, moved, Option.bind_some,
        ih (Function.update_self ..) later ran, Function.update_idem]

end RoutedQueues

end PreemptiveExecutor.Theory
