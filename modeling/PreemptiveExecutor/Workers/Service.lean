/-
# Workers.Service — a worker group is a first-in first-out queue, its threads the servers

What a worker group is for: the batches of the dispatcher are submitted to one line,
a free thread starts the first bundle of it, and completes it when its `run` ends.
`WorkerGroup.service` forgets everything else (tokens, counters, priorities, the
points of `worker_main`), and `refines` says that every step of the group is an
action of that queue, or none:

* `enqueue_bulk` submits the batch,
* a `try_dequeue` that returns an element starts it,
* the end of `exec->run()` completes it.

So a bundle is overtaken by those only that were started before it.
-/
import PreemptiveExecutor.Theory.ServiceQueue
import PreemptiveExecutor.Workers.Conservation

namespace PreemptiveExecutor

open Theory

set_option autoImplicit false

namespace WorkerGroup

variable {β : Type}

/-- What waits, what each thread has, and what is done. -/
def service (g : WorkerGroup β) : ServiceQueue β :=
  { waiting := g.queued, serving := g.threads.map Worker.holding, served := g.finished }

/-- The action of a step. -/
def Label.service : Label β → List (ServiceAction β)
  | .enqueueBulk bundles => [.submit bundles]
  | .worker i .tryDequeue => [.start i]
  | .worker i .finishRun => [.complete i]
  | _ => []

@[simp] theorem service_inService (g : WorkerGroup β) : g.service.inService = g.beingRun := by
  simp [ServiceQueue.inService, service, beingRun, List.filterMap_map]

theorem service_spawn (isMutexGroup : Bool) (priority numberOfThreads : Nat) :
    (spawn isMutexGroup priority numberOfThreads : WorkerGroup β).service = .idle numberOfThreads := by
  simp [service, spawn, ServiceQueue.idle, queued, Worker.holding]

/-! ## One step -/

section Step

variable {g g' : WorkerGroup β}

/-- A step of a thread that keeps what the thread has is none of the queue. -/
theorem service_kept {i servers : Nat} {w w' : Worker β} (at_ : g.threads[i]? = some w)
    (threads : g'.threads = g.threads) (queue : g'.queue = g.queue) (finished : g'.finished = g.finished)
    (kept : w'.holding = w.holding) :
    (ServiceQueue.system β servers).run g.service [] = some (g'.setThread i w').service := by
  have serving : (g.threads.set i w').map Worker.holding = g.threads.map Worker.holding :=
    ThreadPool.map_set_of_same at_ kept
  simp only [service, setThread, queued, threads, queue, finished, serving]
  rfl

/-- **A step of a thread**: it starts the first bundle of the line, completes the one
it has, or does nothing that the queue could see. -/
theorem workerStep_service {i : Nat} {w : Worker β} {action : WorkerAction} (tokens : TokensCovered g)
    (at_ : g.threads[i]? = some w) (moved : g.workerStep i w action = some g') :
    (ServiceQueue.system β g.threads.length).run g.service (Label.worker i action).service =
      some g'.service := by
  have valid : w.QueueValid := tokens.threads w (List.mem_of_getElem? at_)
  unfold workerStep at moved
  split at moved
  · split at moved
    · cases moved
      exact service_kept at_ rfl rfl rfl rfl
    · cases moved
  · cases moved
    split
    · exact service_kept at_ rfl rfl rfl rfl
    · exact service_kept at_ rfl rfl rfl rfl
  · split at moved
    · cases moved
    · rename_i exec queue head
      cases moved
      -- what is dequeued is not null, and the thread had nothing
      have nonNull := tokens.nonNull
      rw [head, List.mem_cons, not_or] at nonNull
      cases exec with
      | none => exact absurd rfl nonNull.1
      | some exec =>
          have free : g.service.serving[i]? = some none := by simp [service, at_, Worker.holding]
          have first : g.service.waiting = exec :: queue.filterMap id := by simp [service, queued, head]
          rw [Label.service, Transition.run_cons, ServiceQueue.system]
          simp only [ServiceQueue.step, free, first]
          simp [service, setThread, queued, Worker.holding, List.map_set, Transition.run_nil]
  · rename_i failedAttempts spurious
    have failed : ∀ spurious', (dequeueFailed failedAttempts spurious' : Worker β).holding = none := by
      intro spurious'
      unfold dequeueFailed
      split <;> rfl
    split at moved
    · cases moved
      exact service_kept at_ rfl rfl rfl (failed _)
    · split at moved
      · cases moved
        exact service_kept at_ rfl rfl rfl (failed _)
      · cases moved
  · exact absurd rfl valid
  · cases moved
    exact service_kept at_ rfl rfl rfl rfl
  · rename_i exec
    cases moved
    have busy : g.service.serving[i]? = some (some exec) := by simp [service, at_, Worker.holding]
    rw [Label.service, Transition.run_cons, ServiceQueue.system]
    simp only [ServiceQueue.step, busy]
    simp [service, setThread, queued, Worker.holding, List.map_set, Transition.run_nil]
  · cases moved
    exact service_kept at_ rfl rfl rfl (workerAfter_holds β _).1
  · cases moved
    exact service_kept at_ (g.updatePrio_threads _) (g.updatePrio_queue _) (g.updatePrio_finished _)
      (workerAfter_holds β _).1
  · cases moved

/-- **A step of the group.** -/
theorem step_service {label : Label β} (tokens : TokensCovered g) (stepped : g.step label = some g') :
    (ServiceQueue.system β g.threads.length).run g.service label.service = some g'.service := by
  cases label with
  | enqueueBulk bundles =>
      obtain ⟨-, rfl⟩ := step_enqueueBulk stepped
      rw [Label.service, Transition.run_cons, ServiceQueue.system]
      simp [ServiceQueue.step, service, queued, List.filterMap_append, List.filterMap_map,
        Transition.run_nil]
  | worker i action =>
      obtain ⟨w, w', g₁, at_, moved, -, -⟩ := step_worker stepped
      exact workerStep_service tokens at_ moved
  | fetchAdd =>
      obtain ⟨n, -, rfl⟩ := step_fetchAdd stepped
      rfl
  | dispatcherUpdatePrio =>
      obtain ⟨n, point, -, rfl⟩ := step_dispatcherUpdatePrio stepped
      simp [Label.service, service, queued, Transition.run_nil]
  | release =>
      obtain ⟨n, -, rfl⟩ := step_release stepped
      rfl
  | setOk ok => cases stepped; rfl
  | setSpinning spinning =>
      obtain ⟨-, rfl⟩ := step_setSpinning stepped
      rfl
  | destroy =>
      obtain ⟨-, rfl⟩ := step_destroy stepped
      rfl

end Step

/-! ## Runs -/

section Runs

variable {isMutexGroup : Bool} {priority numberOfThreads : Nat} {g : WorkerGroup β}

/-- The worker group refines the queue with as many servers as it has threads. -/
theorem refines (β : Type) (isMutexGroup : Bool) (priority numberOfThreads : Nat) :
    Transition.Refines (system β isMutexGroup priority numberOfThreads) (ServiceQueue.system β numberOfThreads)
      service fun _ => Label.service where
  init g start := by rw [start]; exact service_spawn isMutexGroup priority numberOfThreads
  step g label g' reachable stepped := by
    have size := threads_length_reachable reachable
    rw [← size]
    exact step_service (tokensCovered_reachable reachable) stepped

/-- What has been enqueued, by a run of the queue. -/
theorem run_enqueued {labels : List (Label β)}
    (ran : (system β isMutexGroup priority numberOfThreads).run (spawn isMutexGroup priority numberOfThreads)
      labels = some g) : (labels.flatMap Label.service).flatMap ServiceAction.jobs = g.enqueued := by
  refine Transition.run_rule (T := system β isMutexGroup priority numberOfThreads)
    (fun labels g => (labels.flatMap Label.service).flatMap ServiceAction.jobs = g.enqueued)
    (fun labels g label g' same stepped => ?_) rfl ran
  rw [List.flatMap_append, List.flatMap_append, same, step_enqueued stepped, List.flatMap_singleton]
  congr 1
  cases label with
  | enqueueBulk bundles => simp [Label.service, ServiceAction.jobs]
  | worker i action => cases action <;> rfl
  | _ => rfl

/-- **A worker group serves first in, first out**: whatever the interleaving, a run of
the group is a run of the queue whose servers are its threads, in which each batch is
submitted as it is enqueued, started where a `try_dequeue` returns and completed where
a `run` ends; and it leaves the queue with what waits, what each thread has and what
has finished in the group. -/
theorem run_serves {labels : List (Label β)}
    (ran : (system β isMutexGroup priority numberOfThreads).run (spawn isMutexGroup priority numberOfThreads)
      labels = some g) :
    (ServiceQueue.system β numberOfThreads).run (.idle numberOfThreads) (labels.flatMap Label.service) =
      some g.service := by
  have served := (refines β isMutexGroup priority numberOfThreads).run (.init rfl) ran
  rwa [Transition.actions_of_label _ _ ran, service_spawn] at served

/-- Two threads that finish in the other order. -/
theorem run_serves_overtaken :
    ∃ g : WorkerGroup Nat, g.finished = [2] ∧ g.beingRun = [1] ∧
      (ServiceQueue.system Nat 2).run (.idle 2)
        [.submit [1, 2], .start 0, .start 1, .complete 1] = some g.service := by
  have values : ((system Nat false 5 2).run (spawn false 5 2)
      [.enqueueBulk [1, 2], .fetchAdd, .release, .worker 0 .acquire, .worker 1 .acquire, .worker 1 .check,
        .worker 0 .check, .worker 0 .tryDequeue, .worker 1 .tryDequeueFails, .worker 1 .tryDequeue,
        .worker 1 .startRun, .worker 1 .finishRun]).map
      (fun g => (g.finished, g.beingRun)) = some ([2], [1]) := by decide
  obtain ⟨g, ran, values⟩ := Option.map_eq_some_iff.1 values
  obtain ⟨finished, held⟩ := Prod.mk.inj values
  exact ⟨g, finished, held, run_serves ran⟩

/-- What the queue knows of the order, for the group: the bundles taken from it are the
first ones enqueued, each of them finished or with one of the threads; and a single
thread finishes them in the order in which they were enqueued. -/
theorem inOrder_reachable (reachable : (system β isMutexGroup priority numberOfThreads).Reachable g) :
    (∃ taken, g.enqueued = taken ++ g.queued ∧ taken.Perm (g.beingRun ++ g.finished) ∧
        g.beingRun.length ≤ numberOfThreads) ∧
      (numberOfThreads = 1 → g.finished ++ g.beingRun ++ g.queued = g.enqueued) := by
  obtain ⟨g₀, labels, start, ran⟩ := Transition.exists_run reachable
  cases start
  have served := (refines β isMutexGroup priority numberOfThreads).run (.init rfl) ran
  rw [Transition.actions_of_label _ _ ran, service_spawn] at served
  constructor
  · obtain ⟨⟨taken, split, all⟩, size⟩ := ServiceQueue.run_fifo served
    rw [run_enqueued ran] at split
    rw [service_inService] at all
    refine ⟨taken, split, all, ?_⟩
    have few := g.service.inService_length_le
    rwa [service_inService, size] at few
  · rintro rfl
    have inOrder := ServiceQueue.run_inOrder served
    rwa [run_enqueued ran, service_inService] at inOrder

end Runs

end WorkerGroup

end PreemptiveExecutor
