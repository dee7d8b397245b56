/-
# Workers.Tokens — a worker that may dequeue finds an element

Tokens are anonymous: a worker may take a new element on an old token while the
dispatcher is still between `enqueue_bulk` and `release`.  What holds is a count.
Until the destructor runs, the tokens in the semaphore, the workers that hold
one and the batch not yet released add up to at most the queue length
(`TokensCovered`); the destructor's own tokens match no element, but by then
`spinning` is false and whoever takes one leaves.
-/
import PreemptiveExecutor.Workers.Steps

namespace PreemptiveExecutor

open Theory

set_option autoImplicit false

variable {β : Type}

def Worker.isAcquired : Worker β → Bool
  | .acquired => true
  | _ => false

/-- Past the ok/spinning check, and nothing dequeued yet. -/
def Worker.isDequeuing : Worker β → Bool
  | .dequeuing _ _ => true
  | _ => false

/-- The bundles handed over whose tokens are not released yet. -/
def Dispatcher.unreleased : Dispatcher → Nat
  | .enqueued n => n
  | .updating n _ => n
  | .releasing n => n
  | _ => 0

/-- No thread has failed on the queue: all failed attempts were spurious, a
dequeued element is not null, and nothing was thrown. -/
def Worker.QueueValid : Worker β → Prop
  | .dequeuing failedAttempts spurious => failedAttempts = spurious ∧ spurious ≤ 10
  | .dequeued exec => exec ≠ none
  | .threw what => what ≠ WorkerGroup.readyQueueInvalid
  | _ => True

namespace WorkerGroup

/-- The tokens that will still be matched against an element, before the
destructor has added its own. -/
def tokens (g : WorkerGroup β) : Nat :=
  g.semaphore + g.threads.countP Worker.isAcquired + g.threads.countP Worker.isDequeuing +
    g.dispatcher.unreleased

/-- **The counting invariant.** -/
structure TokensCovered (g : WorkerGroup β) : Prop where
  alive : g.destroyed = false → g.tokens ≤ g.queue.length
  dead : g.destroyed = true → g.spinning = false ∧ g.dispatcher.stopped = true
  dequeuing : g.threads.countP Worker.isDequeuing ≤ g.queue.length
  nonNull : none ∉ g.queue
  threads : ∀ w ∈ g.threads, w.QueueValid

theorem unreleased_dispatcherAfter_le (n : Nat) (result : UpdatePrioResult) :
    (dispatcherAfter n result).unreleased ≤ n := by
  cases result <;> simp [dispatcherAfter, Dispatcher.unreleased]

theorem workerAfter_counts (β : Type) (result : UpdatePrioResult) :
    (workerAfter result : Worker β).isAcquired = false ∧
      (workerAfter result : Worker β).isDequeuing = false := by
  cases result <;> exact ⟨rfl, rfl⟩

theorem callUpdatePrio_valid (g : WorkerGroup β) : (workerAfter g.callUpdatePrio : Worker β).QueueValid := by
  unfold callUpdatePrio
  split <;> trivial

theorem updatePrio_valid (g : WorkerGroup β) (point : UpdatePrio) :
    (workerAfter (g.updatePrio point).1 : Worker β).QueueValid := by
  cases point with
  | loadBoosted shouldBoost =>
      simp only [updatePrio]
      split
      · trivial
      · split
        · simp [workerAfter, Worker.QueueValid, readyQueueInvalid]
        · trivial
  | loadPending | setFifoPrio | storeBoosted => trivial

theorem dequeueFailed_counts (failedAttempts spurious : Nat) (few : failedAttempts ≤ 10) :
    (dequeueFailed failedAttempts spurious : Worker β) = .dequeuing (failedAttempts + 1) spurious := by
  rw [dequeueFailed, if_neg (by omega)]

theorem tokensCovered_spawn (isMutexGroup : Bool) (priority numberOfThreads : Nat) :
    TokensCovered (spawn isMutexGroup priority numberOfThreads : WorkerGroup β) where
  alive _ := by
    simp [spawn, tokens, Dispatcher.unreleased, List.countP_replicate, Worker.isAcquired,
      Worker.isDequeuing]
  dead h := by cases h
  dequeuing := by simp [spawn, List.countP_replicate, Worker.isDequeuing]
  nonNull := List.not_mem_nil
  threads w member := by
    obtain rfl := List.eq_of_mem_replicate member
    trivial

/-- A thread at the queue is itself counted, so the queue is not empty. -/
theorem TokensCovered.queue_ne_nil {g : WorkerGroup β} {i : Nat} {w : Worker β} (inv : TokensCovered g)
    (at_ : g.threads[i]? = some w) (here : w.isDequeuing = true) : g.queue ≠ [] := by
  intro empty
  have counted := List.countP_pos_iff.2 ⟨w, List.mem_of_getElem? at_, here⟩
  have covered := inv.dequeuing
  rw [empty, List.length_nil] at covered
  omega

/-- **A step of a thread keeps the tokens covered** if it gives away as many elements as
tokens, at most; once the destructor has run, as many as it was to dequeue. -/
theorem TokensCovered.exchange {g g' : WorkerGroup β} {i : Nat} {w : Worker β} (inv : TokensCovered g)
    (at_ : g.threads[i]? = some w) (w' : Worker β) (threads : g'.threads = g.threads)
    (dispatcher : g'.dispatcher = g.dispatcher) (spinning : g'.spinning = g.spinning)
    (destroyed : g'.destroyed = g.destroyed)
    (alive : g.destroyed = false →
      g'.semaphore + (if w'.isAcquired then 1 else 0) + (if w'.isDequeuing then 1 else 0) + g.queue.length ≤
        g.semaphore + (if w.isAcquired then 1 else 0) + (if w.isDequeuing then 1 else 0) + g'.queue.length)
    (dead : g.destroyed = true →
      (if w'.isDequeuing then 1 else 0) + g.queue.length ≤ (if w.isDequeuing then 1 else 0) + g'.queue.length)
    (nonNull : none ∉ g'.queue) (valid : w'.QueueValid) : TokensCovered (g'.setThread i w') := by
  have acquired := ThreadPool.countP_set at_ w' Worker.isAcquired
  have popping := ThreadPool.countP_set at_ w' Worker.isDequeuing
  have tokens_ : (g'.setThread i w').tokens =
      g'.semaphore + (g.threads.set i w').countP Worker.isAcquired +
        (g.threads.set i w').countP Worker.isDequeuing + g.dispatcher.unreleased := by
    simp only [tokens, setThread, threads, dispatcher]
  have covered : g.destroyed = false → (g'.setThread i w').tokens ≤ g'.queue.length := by
    intro running
    have before := inv.alive running
    have change_ := alive running
    rw [tokens_]
    rw [tokens] at before
    omega
  constructor
  · exact fun running => covered (destroyed ▸ running)
  · intro gone
    rw [setThread, spinning, dispatcher]
    exact inv.dead (destroyed ▸ gone)
  · show (g'.threads.set i w').countP Worker.isDequeuing ≤ g'.queue.length
    rw [threads]
    cases running : g.destroyed with
    | false =>
        have bound := covered running
        rw [tokens_] at bound
        omega
    | true =>
        have before := inv.dequeuing
        have change_ := dead running
        omega
  · exact nonNull
  · intro v member
    rw [setThread, threads] at member
    rcases List.mem_or_eq_of_mem_set member with old | rfl
    · exact inv.threads v old
    · exact valid

/-- One step of a thread: `g'` is the group with the rest of the effect applied. -/
theorem tokensCovered_thread {g g' : WorkerGroup β} {i : Nat} {w w' : Worker β} (inv : TokensCovered g)
    (at_ : g.threads[i]? = some w) (effect : ThreadEffect g w w' g') :
    TokensCovered (g'.setThread i w') := by
  obtain ⟨threads, dispatcher, spinning, destroyed, -⟩ := effect.frame
  have valid : w.QueueValid := inv.threads w (List.mem_of_getElem? at_)
  have exchange := inv.exchange at_ w' threads dispatcher spinning destroyed
  cases effect with
  | acquire token =>
      refine exchange (fun _ => ?_) (fun _ => Nat.le_refl _) inv.nonNull trivial
      show g.semaphore - 1 + 1 + 0 + g.queue.length ≤ g.semaphore + 0 + 0 + g.queue.length
      omega
  | exit stopped =>
      refine exchange (fun _ => ?_) (fun _ => Nat.le_refl _) inv.nonNull trivial
      show g.semaphore + 0 + 0 + g.queue.length ≤ g.semaphore + 1 + 0 + g.queue.length
      omega
  | pass ok going =>
      refine exchange (fun _ => Nat.le_refl _) (fun gone => ?_) inv.nonNull ⟨rfl, Nat.zero_le _⟩
      -- the destructor runs when nothing is spinning
      have stopped := (inv.dead gone).1
      rw [going] at stopped
      cases stopped
  | @dequeue _ _ exec queue head =>
      have nonNull := inv.nonNull
      rw [head, List.mem_cons, not_or] at nonNull
      refine exchange (fun _ => ?_) (fun _ => ?_) nonNull.2 fun null => nonNull.1 null.symm
      · show g.semaphore + 0 + 0 + g.queue.length ≤ g.semaphore + 0 + 1 + queue.length
        rw [head, List.length_cons]
        omega
      · show 0 + g.queue.length ≤ 1 + queue.length
        rw [head, List.length_cons]
        omega
  | empty queue => exact absurd queue (inv.queue_ne_nil at_ rfl)
  | spuriousFailure few =>
      obtain ⟨rfl, le⟩ := valid
      rw [dequeueFailed_counts _ _ le] at exchange ⊢
      exact exchange (fun _ => Nat.le_refl _) (fun _ => Nat.le_refl _) inv.nonNull ⟨rfl, by omega⟩
  | null => exact absurd rfl valid
  | start => exact exchange (fun _ => Nat.le_refl _) (fun _ => Nat.le_refl _) inv.nonNull trivial
  | finish => exact exchange (fun _ => Nat.le_refl _) (fun _ => Nat.le_refl _) inv.nonNull trivial
  | fetchSub =>
      obtain ⟨notAcquired, notDequeuing⟩ := workerAfter_counts β g.callUpdatePrio
      rw [notAcquired, notDequeuing] at exchange
      exact exchange (fun _ => Nat.le_refl _) (fun _ => Nat.le_refl _) inv.nonNull g.callUpdatePrio_valid
  | @updatePrio point =>
      obtain ⟨notAcquired, notDequeuing⟩ := workerAfter_counts β (g.updatePrio point).1
      rw [notAcquired, notDequeuing, updatePrio_semaphore, updatePrio_queue] at exchange
      exact exchange (fun _ => Nat.le_refl _) (fun _ => Nat.le_refl _) inv.nonNull (g.updatePrio_valid point)

theorem tokensCovered_step {g g' : WorkerGroup β} (inv : TokensCovered g) (effect : Effect g g') :
    TokensCovered g' := by
  cases effect with
  | worker at_ effect => exact tokensCovered_thread inv at_ effect
  | enqueueBulk bundles idle alive =>
      have covered := inv.alive alive
      have dequeuing := inv.dequeuing
      simp only [tokens, idle, Dispatcher.unreleased] at covered
      refine ⟨fun _ => ?_, fun dead => ?_, ?_, ?_, inv.threads⟩
      · simp only [tokens, Dispatcher.unreleased, List.length_append, List.length_map]; omega
      · rw [alive] at dead; cases dead
      · simp only [List.length_append, List.length_map]; omega
      · simpa using inv.nonNull
  | fetchAdd at_ =>
      rename_i n
      have le := unreleased_dispatcherAfter_le n g.callUpdatePrio
      refine ⟨fun h => ?_, fun h => ?_, inv.dequeuing, inv.nonNull, inv.threads⟩
      · have covered := inv.alive h
        simp only [tokens, at_, Dispatcher.unreleased] at covered
        simp only [tokens]
        omega
      · have := (inv.dead h).2
        rw [at_] at this
        cases this
  | dispatcherUpdatePrio at_ =>
      rename_i n point
      have le := unreleased_dispatcherAfter_le n (g.updatePrio point).1
      refine ⟨fun h => ?_, fun h => ?_, by simpa using inv.dequeuing, by simpa using inv.nonNull,
        by simpa using inv.threads⟩
      · have covered := inv.alive (by simpa using h)
        simp only [tokens, at_, Dispatcher.unreleased] at covered
        simp only [tokens, updatePrio_threads, updatePrio_semaphore, updatePrio_queue]
        omega
      · have := (inv.dead (by simpa using h)).2
        rw [at_] at this
        cases this
  | release at_ =>
      refine ⟨fun h => ?_, fun h => ?_, inv.dequeuing, inv.nonNull, inv.threads⟩
      · have covered := inv.alive h
        simp only [tokens, at_, Dispatcher.unreleased] at covered ⊢
        omega
      · have := (inv.dead h).2
        rw [at_] at this
        cases this
  | setOk ok => exact ⟨inv.alive, inv.dead, inv.dequeuing, inv.nonNull, inv.threads⟩
  | setSpinning spinning alive =>
      refine ⟨inv.alive, fun dead => ?_, inv.dequeuing, inv.nonNull, inv.threads⟩
      rw [alive] at dead
      cases dead
  | destroy stopped alive idle =>
      exact ⟨fun h => (by cases h), fun _ => ⟨stopped, idle⟩, inv.dequeuing, inv.nonNull, inv.threads⟩

theorem tokensCovered_reachable {isMutexGroup : Bool} {priority numberOfThreads : Nat} {g : WorkerGroup β}
    (reachable : (system β isMutexGroup priority numberOfThreads).Reachable g) : TokensCovered g :=
  Transition.invariant TokensCovered
    (fun _ start => by rw [start]; exact tokensCovered_spawn isMutexGroup priority numberOfThreads)
    (fun _ _ _ inv _ stepped => tokensCovered_step inv (step_cases stepped)) reachable

/-- **A worker that may dequeue finds an element**: in every state reached from
a spawned group, shutdown included, the workers between the ok/spinning check
and their dequeue are no more than the elements queued, and none of them has
thrown "Ready Q state invalid". -/
theorem dequeuing_le_queue {isMutexGroup : Bool} {priority numberOfThreads : Nat} {g : WorkerGroup β}
    (reachable : (system β isMutexGroup priority numberOfThreads).Reachable g) :
    g.threads.countP Worker.isDequeuing ≤ g.queue.length ∧ .threw readyQueueInvalid ∉ g.threads :=
  have inv := tokensCovered_reachable reachable
  ⟨inv.dequeuing, fun threw => inv.threads _ threw rfl⟩

/-- The first worker is past the check, and `try_dequeue` has failed there once, when the
second batch comes and the second worker takes a token. -/
def twoWorkersRun : List (Label Nat) :=
  [.enqueueBulk [1], .fetchAdd, .release, .worker 0 .acquire, .worker 0 .check, .worker 0 .tryDequeueFails,
    .enqueueBulk [2, 3], .fetchAdd, .release, .worker 1 .acquire, .worker 1 .check]

theorem dequeuing_le_queue_twoWorkers :
    ∃ g : WorkerGroup Nat, (system Nat false 5 2).run (spawn false 5 2) twoWorkersRun = some g ∧
      g.threads = [.dequeuing 1 1, .dequeuing 0 0] ∧ g.queue.length = 3 ∧
      g.threads.countP Worker.isDequeuing ≤ g.queue.length ∧ .threw readyQueueInvalid ∉ g.threads := by
  have values : ((system Nat false 5 2).run (spawn false 5 2) twoWorkersRun).map
      (fun g => (g.threads, g.queue.length)) = some ([.dequeuing 1 1, .dequeuing 0 0], 3) := by decide
  obtain ⟨g, ran, values⟩ := Option.map_eq_some_iff.1 values
  obtain ⟨threads, queued⟩ := Prod.mk.inj values
  exact ⟨g, ran, threads, queued, dequeuing_le_queue (Transition.reachableWhile_run (.init rfl) ran)⟩

end WorkerGroup

end PreemptiveExecutor
