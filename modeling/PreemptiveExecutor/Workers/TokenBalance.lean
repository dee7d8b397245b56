/-
# Workers.TokenBalance — no token is lost

`TokensCovered` bounds the tokens by the queue.  For the groups the executor spawns,
where a mutex group has one thread, nothing in the group ever throws, and then the
bound is an equation: the tokens in the semaphore, those a thread has taken and not
matched against an element, those the dispatcher still has to release and those of
the threads that have exited are as many as the queued elements, and after the
destructor as many more as there are threads (`Balanced`).

So before shutdown no element waits in the queue without a token for it.
-/
import PreemptiveExecutor.Workers.Shutdown
import PreemptiveExecutor.Workers.Conservation

namespace PreemptiveExecutor

open Theory

set_option autoImplicit false

variable {β : Type}

/-- Nothing was thrown, and only a mutex group is inside `update_prio`. -/
def Worker.Unthrown (isMutexGroup : Bool) : Worker β → Prop
  | .threw _ => False
  | .updating _ => isMutexGroup = true
  | _ => True

def Dispatcher.Unthrown (isMutexGroup : Bool) : Dispatcher → Prop
  | .threw _ => False
  | .updating _ _ => isMutexGroup = true
  | _ => True

namespace WorkerGroup

/-- **The balance of the tokens.** -/
structure Balanced (g : WorkerGroup β) : Prop where
  tokens : g.tokens + g.threads.countP Worker.isExited =
    g.queue.length + if g.destroyed then g.threads.length else 0
  threads : ∀ w ∈ g.threads, w.Unthrown g.isMutexGroup
  dispatcher : g.dispatcher.Unthrown g.isMutexGroup

/-! ## `update_prio` does not throw -/

theorem callUpdatePrio_unthrown (g : WorkerGroup β) :
    (workerAfter g.callUpdatePrio : Worker β).Unthrown g.isMutexGroup ∧
      ∀ n, (dispatcherAfter n g.callUpdatePrio).Unthrown g.isMutexGroup := by
  unfold callUpdatePrio
  split
  · rename_i mutex
    exact ⟨mutex, fun _ => mutex⟩
  · exact ⟨trivial, fun _ => trivial⟩

theorem updatePrio_unthrown {g : WorkerGroup β} (sole : g.isMutexGroup = true → g.threads.length = 1)
    (mutex : g.isMutexGroup = true) (point : UpdatePrio) :
    (workerAfter (g.updatePrio point).1 : Worker β).Unthrown g.isMutexGroup ∧
      ∀ n, (dispatcherAfter n (g.updatePrio point).1).Unthrown g.isMutexGroup := by
  cases point with
  | loadBoosted shouldBoost =>
      simp only [updatePrio, sole mutex]
      split
      · exact ⟨trivial, fun _ => trivial⟩
      · exact ⟨mutex, fun _ => mutex⟩
  | loadPending => exact ⟨mutex, fun _ => mutex⟩
  | setFifoPrio shouldBoost => exact ⟨mutex, fun _ => mutex⟩
  | storeBoosted shouldBoost => exact ⟨trivial, fun _ => trivial⟩

/-! ## Steps -/

theorem balanced_spawn (isMutexGroup : Bool) (priority numberOfThreads : Nat) :
    Balanced (spawn isMutexGroup priority numberOfThreads : WorkerGroup β) where
  tokens := by
    simp [spawn, WorkerGroup.tokens, Dispatcher.unreleased, List.countP_replicate, Worker.isAcquired,
      Worker.isDequeuing, Worker.isExited]
  threads w member := by
    obtain rfl := List.eq_of_mem_replicate member
    trivial
  dispatcher := trivial

/-- **A step of a thread keeps the balance** if it gives away as many elements as
tokens. -/
theorem Balanced.exchange {g g' : WorkerGroup β} {i : Nat} {w : Worker β} (inv : Balanced g)
    (at_ : g.threads[i]? = some w) (w' : Worker β) (threads : g'.threads = g.threads)
    (dispatcher : g'.dispatcher = g.dispatcher) (destroyed : g'.destroyed = g.destroyed)
    (isMutexGroup : g'.isMutexGroup = g.isMutexGroup)
    (balance : g'.semaphore + (if w'.isAcquired then 1 else 0) + (if w'.isDequeuing then 1 else 0) +
        (if w'.isExited then 1 else 0) + g.queue.length =
      g.semaphore + (if w.isAcquired then 1 else 0) + (if w.isDequeuing then 1 else 0) +
        (if w.isExited then 1 else 0) + g'.queue.length)
    (unthrown : w'.Unthrown g.isMutexGroup) : Balanced (g'.setThread i w') := by
  have acquired := ThreadPool.countP_set at_ w' Worker.isAcquired
  have popping := ThreadPool.countP_set at_ w' Worker.isDequeuing
  have exited := ThreadPool.countP_set at_ w' Worker.isExited
  have before := inv.tokens
  refine ⟨?_, fun v member => ?_, ?_⟩
  · simp only [WorkerGroup.tokens, setThread, threads, dispatcher, destroyed, List.length_set] at before ⊢
    omega
  · rw [setThread, threads] at member
    rw [setThread, isMutexGroup]
    rcases List.mem_or_eq_of_mem_set member with old | rfl
    · exact inv.threads v old
    · exact unthrown
  · rw [setThread, dispatcher, isMutexGroup]
    exact inv.dispatcher

theorem workerAfter_isExited (result : UpdatePrioResult) : (workerAfter result : Worker β).isExited = false := by
  cases result <;> rfl

theorem balanced_thread {g g' : WorkerGroup β} {i : Nat} {w w' : Worker β} (covered : TokensCovered g)
    (sole : g.isMutexGroup = true → g.threads.length = 1) (inv : Balanced g) (at_ : g.threads[i]? = some w)
    (effect : ThreadEffect g w w' g') : Balanced (g'.setThread i w') := by
  obtain ⟨threads, dispatcher, -, destroyed, -, -, isMutexGroup⟩ := effect.frame
  have valid : w.QueueValid := covered.threads w (List.mem_of_getElem? at_)
  have unthrown : w.Unthrown g.isMutexGroup := inv.threads w (List.mem_of_getElem? at_)
  have exchange := inv.exchange at_ w' threads dispatcher destroyed isMutexGroup
  cases effect with
  | acquire token =>
      refine exchange ?_ trivial
      show g.semaphore - 1 + 1 + 0 + 0 + g.queue.length = g.semaphore + 0 + 0 + 0 + g.queue.length
      omega
  | exit stopped => exact exchange rfl trivial
  | pass ok going => exact exchange rfl trivial
  | @dequeue _ _ exec queue head =>
      refine exchange ?_ trivial
      show g.semaphore + 0 + 0 + 0 + g.queue.length = g.semaphore + 0 + 1 + 0 + queue.length
      rw [head, List.length_cons]
      omega
  | empty queue => exact absurd queue (covered.queue_ne_nil at_ rfl)
  | spuriousFailure few =>
      obtain ⟨rfl, le⟩ := valid
      rw [dequeueFailed_counts _ _ le] at exchange ⊢
      exact exchange rfl trivial
  | null => exact absurd rfl valid
  | start => exact exchange rfl trivial
  | finish => exact exchange rfl trivial
  | fetchSub =>
      obtain ⟨notAcquired, notDequeuing⟩ := workerAfter_counts β g.callUpdatePrio
      rw [notAcquired, notDequeuing, workerAfter_isExited] at exchange
      exact exchange rfl g.callUpdatePrio_unthrown.1
  | @updatePrio point =>
      obtain ⟨notAcquired, notDequeuing⟩ := workerAfter_counts β (g.updatePrio point).1
      rw [notAcquired, notDequeuing, workerAfter_isExited, updatePrio_semaphore, updatePrio_queue] at exchange
      exact exchange rfl (updatePrio_unthrown sole unthrown point).1

/-- A dispatcher that goes on has as much to release as before. -/
theorem unreleased_dispatcherAfter {n : Nat} {isMutexGroup : Bool} {result : UpdatePrioResult}
    (unthrown : (dispatcherAfter n result).Unthrown isMutexGroup) :
    (dispatcherAfter n result).unreleased = n := by
  cases result with
  | inside point => rfl
  | returned => rfl
  | threw what => cases unthrown

theorem balanced_step {g g' : WorkerGroup β} (covered : TokensCovered g)
    (sole : g.isMutexGroup = true → g.threads.length = 1) (inv : Balanced g) (effect : Effect g g') :
    Balanced g' := by
  obtain ⟨tokens, threads, dispatcher⟩ := inv
  cases effect with
  | worker at_ effect => exact balanced_thread covered sole ⟨tokens, threads, dispatcher⟩ at_ effect
  | enqueueBulk bundles idle alive =>
      refine ⟨?_, threads, trivial⟩
      simp only [WorkerGroup.tokens, idle, Dispatcher.unreleased, List.length_append, List.length_map]
        at tokens ⊢
      omega
  | @fetchAdd n at_ =>
      have unthrown := g.callUpdatePrio_unthrown.2 n
      refine ⟨?_, threads, unthrown⟩
      rw [WorkerGroup.tokens, at_] at tokens
      simp only [WorkerGroup.tokens, unreleased_dispatcherAfter unthrown]
      exact tokens
  | @dispatcherUpdatePrio n point at_ =>
      have mutex : g.isMutexGroup = true := by
        rw [at_] at dispatcher
        exact dispatcher
      have unthrown := (updatePrio_unthrown sole mutex point).2 n
      refine ⟨?_, by simpa using threads, by simpa using unthrown⟩
      rw [WorkerGroup.tokens, at_] at tokens
      simp only [WorkerGroup.tokens, unreleased_dispatcherAfter unthrown, updatePrio_semaphore,
        updatePrio_threads, updatePrio_queue, updatePrio_destroyed]
      exact tokens
  | @release n at_ =>
      refine ⟨?_, threads, trivial⟩
      simp only [WorkerGroup.tokens, at_, Dispatcher.unreleased] at tokens ⊢
      omega
  | setOk ok => exact ⟨tokens, threads, dispatcher⟩
  | setSpinning spinning alive => exact ⟨tokens, threads, dispatcher⟩
  | destroy stopped alive idle =>
      refine ⟨?_, threads, dispatcher⟩
      simp only [WorkerGroup.tokens, alive, Bool.false_eq_true, ↓reduceIte] at tokens ⊢
      omega

section Runs

variable {isMutexGroup : Bool} {priority numberOfThreads : Nat} {g : WorkerGroup β}

theorem sole_reachable (sole : isMutexGroup = true → numberOfThreads = 1)
    (reachable : (system β isMutexGroup priority numberOfThreads).Reachable g) :
    g.isMutexGroup = true → g.threads.length = 1 := by
  rw [isMutexGroup_reachable reachable, threads_length_reachable reachable]
  exact sole

theorem balanced_reachable (sole : isMutexGroup = true → numberOfThreads = 1)
    (reachable : (system β isMutexGroup priority numberOfThreads).Reachable g) : Balanced g := by
  induction reachable with
  | init start => rw [start]; exact balanced_spawn isMutexGroup priority numberOfThreads
  | step before _ stepped ih =>
      exact balanced_step (tokensCovered_reachable before) (sole_reachable sole before) ih (step_cases stepped)

end Runs

end WorkerGroup

end PreemptiveExecutor
