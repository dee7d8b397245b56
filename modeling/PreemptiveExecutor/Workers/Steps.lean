/-
# Workers.Steps — what a step of a worker group can do

`step_cases` inverts `WorkerGroup.step`: every step has one of the effects
below, with the point its party was at.  Invariants are proved by cases on the
effect and do not unfold the step function.
-/
import PreemptiveExecutor.Workers.Model

namespace PreemptiveExecutor

open Theory

set_option autoImplicit false

namespace WorkerGroup

variable {β : Type}

/-! ## Frame lemmas -/

section Frame

variable (g : WorkerGroup β) (point : UpdatePrio)

@[simp] theorem updatePrio_threads : (g.updatePrio point).2.threads = g.threads := by
  unfold updatePrio; grind

@[simp] theorem updatePrio_semaphore : (g.updatePrio point).2.semaphore = g.semaphore := by
  unfold updatePrio; grind

@[simp] theorem updatePrio_queue : (g.updatePrio point).2.queue = g.queue := by
  unfold updatePrio; grind

@[simp] theorem updatePrio_numPending : (g.updatePrio point).2.numPending = g.numPending := by
  unfold updatePrio; grind

@[simp] theorem updatePrio_dispatcher : (g.updatePrio point).2.dispatcher = g.dispatcher := by
  unfold updatePrio; grind

@[simp] theorem updatePrio_spinning : (g.updatePrio point).2.spinning = g.spinning := by
  unfold updatePrio; grind

@[simp] theorem updatePrio_destroyed : (g.updatePrio point).2.destroyed = g.destroyed := by
  unfold updatePrio; grind

@[simp] theorem updatePrio_enqueued : (g.updatePrio point).2.enqueued = g.enqueued := by
  unfold updatePrio; grind

@[simp] theorem updatePrio_started : (g.updatePrio point).2.started = g.started := by
  unfold updatePrio; grind

@[simp] theorem updatePrio_finished : (g.updatePrio point).2.finished = g.finished := by
  unfold updatePrio; grind

@[simp] theorem updatePrio_isMutexGroup : (g.updatePrio point).2.isMutexGroup = g.isMutexGroup := by
  unfold updatePrio; grind

@[simp] theorem updatePrio_priority : (g.updatePrio point).2.priority = g.priority := by
  unfold updatePrio; grind

end Frame

/-! ## Effects -/

/-- What a step of thread `i` changes besides the thread itself: the thread goes
from `w` to `w'` and the rest of the group from `g` to `g'`. -/
inductive ThreadEffect (g : WorkerGroup β) : Worker β → Worker β → WorkerGroup β → Prop where
  | acquire (token : 0 < g.semaphore) :
      ThreadEffect g .waiting .acquired { g with semaphore := g.semaphore - 1 }
  | exit (stopped : g.ok = false ∨ g.spinning = false) : ThreadEffect g .acquired .exited g
  | pass (ok : g.ok = true) (spinning : g.spinning = true) :
      ThreadEffect g .acquired (.dequeuing 0 0) g
  | dequeue {failedAttempts spurious : Nat} {exec : Option β} {queue : List (Option β)}
      (head : g.queue = exec :: queue) :
      ThreadEffect g (.dequeuing failedAttempts spurious) (.dequeued exec) { g with queue }
  | empty {failedAttempts spurious : Nat} (queue : g.queue = []) :
      ThreadEffect g (.dequeuing failedAttempts spurious) (dequeueFailed failedAttempts 0) g
  | spuriousFailure {failedAttempts spurious : Nat} (few : spurious < 10) :
      ThreadEffect g (.dequeuing failedAttempts spurious) (dequeueFailed failedAttempts (spurious + 1)) g
  | null : ThreadEffect g (.dequeued none) (.threw readyQueueInvalid) g
  | start {exec : β} :
      ThreadEffect g (.dequeued (some exec)) (.running exec) { g with started := g.started ++ [exec] }
  | finish {exec : β} :
      ThreadEffect g (.running exec) (.ran exec) { g with finished := g.finished ++ [exec] }
  | fetchSub {exec : β} :
      ThreadEffect g (.ran exec) (workerAfter g.callUpdatePrio) { g with numPending := g.numPending - 1 }
  | updatePrio {point : UpdatePrio} :
      ThreadEffect g (.updating point) (workerAfter (g.updatePrio point).1) (g.updatePrio point).2

inductive Effect (g : WorkerGroup β) : WorkerGroup β → Prop where
  | enqueueBulk (bundles : List β) (idle : g.dispatcher = .idle) (alive : g.destroyed = false) :
      Effect g { g with
        queue := g.queue ++ bundles.map some
        enqueued := g.enqueued ++ bundles
        dispatcher := .enqueued bundles.length }
  | fetchAdd {n : Nat} (at_ : g.dispatcher = .enqueued n) :
      Effect g { g with
        numPending := g.numPending + n
        dispatcher := dispatcherAfter n g.callUpdatePrio }
  | dispatcherUpdatePrio {n : Nat} {point : UpdatePrio} (at_ : g.dispatcher = .updating n point) :
      Effect g { (g.updatePrio point).2 with dispatcher := dispatcherAfter n (g.updatePrio point).1 }
  | release {n : Nat} (at_ : g.dispatcher = .releasing n) :
      Effect g { g with semaphore := g.semaphore + n, dispatcher := .idle }
  | worker {i : Nat} {w w' : Worker β} {g' : WorkerGroup β} (at_ : g.threads[i]? = some w)
      (effect : ThreadEffect g w w' g') : Effect g (g'.setThread i w')
  | setOk (ok : Bool) : Effect g { g with ok }
  | setSpinning (spinning : Bool) (alive : g.destroyed = false) : Effect g { g with spinning }
  | destroy (stopped : g.spinning = false) (alive : g.destroyed = false)
      (idle : g.dispatcher.stopped = true) :
      Effect g { g with semaphore := g.semaphore + g.threads.length, destroyed := true }

theorem workerStep_cases {g g' : WorkerGroup β} {i : Nat} {w : Worker β} {action : WorkerAction}
    (stepped : g.workerStep i w action = some g') :
    ∃ w' g₁, ThreadEffect g w w' g₁ ∧ g' = g₁.setThread i w' := by
  unfold workerStep at stepped
  split at stepped
  · split at stepped
    · rename_i token
      cases stepped
      exact ⟨_, _, .acquire token, rfl⟩
    · cases stepped
  · cases stepped
    refine ⟨_, g, ?_, rfl⟩
    split
    · rename_i stopped
      exact .exit (by simpa using stopped)
    · rename_i going
      simp only [Bool.or_eq_true, Bool.not_eq_eq_eq_not, Bool.not_true, not_or, Bool.not_eq_false]
        at going
      exact .pass going.1 going.2
  · split at stepped
    · cases stepped
    · rename_i head
      cases stepped
      exact ⟨_, _, .dequeue head, rfl⟩
  · split at stepped
    · rename_i queue
      cases stepped
      exact ⟨_, g, .empty queue, rfl⟩
    · split at stepped
      · rename_i few
        cases stepped
        exact ⟨_, g, .spuriousFailure few, rfl⟩
      · cases stepped
  · cases stepped
    exact ⟨_, g, .null, rfl⟩
  · cases stepped
    exact ⟨_, _, .start, rfl⟩
  · cases stepped
    exact ⟨_, _, .finish, rfl⟩
  · cases stepped
    exact ⟨_, _, .fetchSub, rfl⟩
  · cases stepped
    exact ⟨_, _, .updatePrio, rfl⟩
  · cases stepped

section Labels

variable {g g' : WorkerGroup β}

theorem step_enqueueBulk {bundles : List β} (stepped : g.step (.enqueueBulk bundles) = some g') :
    (g.dispatcher = .idle ∧ (!bundles.isEmpty) = true ∧ g.destroyed = false) ∧
      g' = { g with
        queue := g.queue ++ bundles.map some
        enqueued := g.enqueued ++ bundles
        dispatcher := .enqueued bundles.length } := by
  simp only [step] at stepped
  split at stepped
  · rename_i guard
    cases stepped
    exact ⟨guard, rfl⟩
  · cases stepped

theorem step_fetchAdd (stepped : g.step .fetchAdd = some g') :
    ∃ n, g.dispatcher = .enqueued n ∧ g' = { g with
      numPending := g.numPending + n
      dispatcher := dispatcherAfter n g.callUpdatePrio } := by
  simp only [step] at stepped
  split at stepped
  · rename_i at_
    cases stepped
    exact ⟨_, at_, rfl⟩
  · cases stepped

theorem step_dispatcherUpdatePrio (stepped : g.step .dispatcherUpdatePrio = some g') :
    ∃ n point, g.dispatcher = .updating n point ∧
      g' = { (g.updatePrio point).2 with dispatcher := dispatcherAfter n (g.updatePrio point).1 } := by
  simp only [step] at stepped
  split at stepped
  · rename_i at_
    cases stepped
    exact ⟨_, _, at_, rfl⟩
  · cases stepped

theorem step_release (stepped : g.step .release = some g') :
    ∃ n, g.dispatcher = .releasing n ∧ g' = { g with semaphore := g.semaphore + n, dispatcher := .idle } := by
  simp only [step] at stepped
  split at stepped
  · rename_i at_
    cases stepped
    exact ⟨_, at_, rfl⟩
  · cases stepped

theorem step_worker {i : Nat} {action : WorkerAction} (stepped : g.step (.worker i action) = some g') :
    ∃ w w' g₁, g.threads[i]? = some w ∧ g.workerStep i w action = some g' ∧ ThreadEffect g w w' g₁ ∧
      g' = g₁.setThread i w' := by
  obtain ⟨w, at_, moved⟩ := Option.bind_eq_some_iff.1 stepped
  obtain ⟨w', g₁, effect, isThis⟩ := workerStep_cases moved
  exact ⟨w, w', g₁, at_, moved, effect, isThis⟩

/-- A thread inside `update_prio` goes on with it. -/
theorem workerStep_updating {i : Nat} {point : UpdatePrio} {action : WorkerAction}
    (moved : g.workerStep i (.updating point) action = some g') : action = .updatePrio := by
  cases action <;> first | rfl | cases moved

/-- A thread that waits can only acquire, and no other thread does. -/
theorem workerStep_waiting {i : Nat} {action : WorkerAction}
    (moved : g.workerStep i .waiting action = some g') : action = .acquire := by
  cases action <;> first | rfl | cases moved

theorem workerStep_acquire {i : Nat} {w : Worker β} (moved : g.workerStep i w .acquire = some g') :
    w = .waiting := by
  cases w with
  | waiting => rfl
  | dequeued exec => cases exec <;> cases moved
  | _ => cases moved

theorem step_setSpinning {spinning : Bool} (stepped : g.step (.setSpinning spinning) = some g') :
    g.destroyed = false ∧ g' = { g with spinning } := by
  simp only [step] at stepped
  split at stepped
  · rename_i alive
    cases stepped
    exact ⟨alive, rfl⟩
  · cases stepped

theorem step_destroy (stepped : g.step .destroy = some g') :
    (g.spinning = false ∧ g.destroyed = false ∧ g.dispatcher.stopped = true) ∧
      g' = { g with semaphore := g.semaphore + g.threads.length, destroyed := true } := by
  simp only [step] at stepped
  split at stepped
  · rename_i guard
    cases stepped
    exact ⟨guard, rfl⟩
  · cases stepped

theorem step_cases {label : Label β} (stepped : g.step label = some g') : Effect g g' := by
  cases label with
  | enqueueBulk bundles =>
      obtain ⟨guard, rfl⟩ := step_enqueueBulk stepped
      exact .enqueueBulk bundles guard.1 guard.2.2
  | fetchAdd =>
      obtain ⟨n, at_, rfl⟩ := step_fetchAdd stepped
      exact .fetchAdd at_
  | dispatcherUpdatePrio =>
      obtain ⟨n, point, at_, rfl⟩ := step_dispatcherUpdatePrio stepped
      exact .dispatcherUpdatePrio at_
  | release =>
      obtain ⟨n, at_, rfl⟩ := step_release stepped
      exact .release at_
  | worker i action =>
      obtain ⟨w, w', g₁, at_, -, effect, rfl⟩ := step_worker stepped
      exact .worker at_ effect
  | setOk ok => cases stepped; exact .setOk ok
  | setSpinning spinning =>
      obtain ⟨alive, rfl⟩ := step_setSpinning stepped
      exact .setSpinning spinning alive
  | destroy =>
      obtain ⟨guard, rfl⟩ := step_destroy stepped
      exact .destroy guard.1 guard.2.1 guard.2.2

end Labels

/-- What a thread effect leaves alone. -/
theorem ThreadEffect.frame {g g' : WorkerGroup β} {w w' : Worker β} (effect : ThreadEffect g w w' g') :
    g'.threads = g.threads ∧ g'.dispatcher = g.dispatcher ∧ g'.spinning = g.spinning ∧
      g'.destroyed = g.destroyed ∧ g'.enqueued = g.enqueued ∧ g'.priority = g.priority ∧
      g'.isMutexGroup = g.isMutexGroup := by
  cases effect <;> simp

/-- Only a batch that is handed over changes what has been enqueued. -/
theorem step_enqueued {g g' : WorkerGroup β} {label : Label β}
    (stepped : g.step label = some g') :
    g'.enqueued = g.enqueued ++ match label with | .enqueueBulk bundles => bundles | _ => [] := by
  cases label with
  | enqueueBulk bundles =>
      obtain ⟨-, rfl⟩ := step_enqueueBulk stepped
      rfl
  | worker i action =>
      obtain ⟨w, w', g₁, -, -, effect, rfl⟩ := step_worker stepped
      rw [List.append_nil]
      exact effect.frame.2.2.2.2.1
  | fetchAdd =>
      obtain ⟨n, -, rfl⟩ := step_fetchAdd stepped
      exact (List.append_nil _).symm
  | dispatcherUpdatePrio =>
      obtain ⟨n, point, -, rfl⟩ := step_dispatcherUpdatePrio stepped
      simp
  | release =>
      obtain ⟨n, -, rfl⟩ := step_release stepped
      exact (List.append_nil _).symm
  | setOk ok => cases stepped; exact (List.append_nil _).symm
  | setSpinning spinning =>
      obtain ⟨-, rfl⟩ := step_setSpinning stepped
      exact (List.append_nil _).symm
  | destroy =>
      obtain ⟨-, rfl⟩ := step_destroy stepped
      exact (List.append_nil _).symm

end WorkerGroup

end PreemptiveExecutor
