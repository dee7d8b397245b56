/-
# Workers.Conservation — every bundle is run once, and counted while it is not

`Conserved` is the joint invariant over the queue, the threads and the logs: the
bundles enqueued are those queued, those a worker holds and those finished, as
multisets, and `num_pending` counts the ones not subtracted yet, less the batch
not added yet.  That the count never falls below zero is not part of it: it
follows from `TokensCovered`, which keeps the batch not added yet in the queue.
-/
import PreemptiveExecutor.Workers.Tokens

namespace PreemptiveExecutor

open Theory

set_option autoImplicit false

variable {β : Type}

/-- The bundle a worker has taken and not finished. -/
def Worker.holding : Worker β → Option β
  | .dequeued exec => exec
  | .running exec => some exec
  | _ => none

/-- The bundle a worker has taken and not started. -/
def Worker.toStart : Worker β → Option β
  | .dequeued exec => exec
  | _ => none

/-- The bundle a worker is inside the `run` of. -/
def Worker.inRun : Worker β → Option β
  | .running exec => some exec
  | _ => none

/-- A bundle was taken whose `fetch_sub` is still to come. -/
def Worker.isUnsubtracted : Worker β → Bool
  | .dequeued _ => true
  | .running _ => true
  | .ran _ => true
  | _ => false

/-- The batch enqueued whose `fetch_add` is still to come. -/
def Dispatcher.unadded : Dispatcher → Nat
  | .enqueued n => n
  | _ => 0

namespace WorkerGroup

/-- The bundles in the queue, first to last. -/
def queued (g : WorkerGroup β) : List β := g.queue.filterMap id

/-- The bundles the workers hold. -/
def beingRun (g : WorkerGroup β) : List β := g.threads.filterMap Worker.holding

structure Conserved (g : WorkerGroup β) : Prop where
  bundles : (↑g.enqueued : Multiset β) = ↑g.queued + ↑g.beingRun + ↑g.finished
  runs : (↑g.started : Multiset β) = ↑(g.threads.filterMap Worker.inRun) + ↑g.finished
  pending : g.numPending + g.dispatcher.unadded =
    g.queue.length + g.threads.countP Worker.isUnsubtracted
  order : g.threads.length = 1 →
    g.started ++ g.threads.filterMap Worker.toStart ++ g.queued = g.enqueued

theorem workerAfter_holds (β : Type) (result : UpdatePrioResult) :
    (workerAfter result : Worker β).holding = none ∧ (workerAfter result : Worker β).toStart = none ∧
      (workerAfter result : Worker β).inRun = none ∧
      (workerAfter result : Worker β).isUnsubtracted = false := by
  cases result <;> exact ⟨rfl, rfl, rfl, rfl⟩

theorem unadded_dispatcherAfter (n : Nat) (result : UpdatePrioResult) :
    (dispatcherAfter n result).unadded = 0 := by
  cases result <;> rfl

theorem conserved_spawn (isMutexGroup : Bool) (priority numberOfThreads : Nat) :
    Conserved (spawn isMutexGroup priority numberOfThreads : WorkerGroup β) where
  bundles := by simp [spawn, queued, beingRun, Worker.holding, List.filterMap_replicate]
  runs := by simp [spawn, Worker.inRun, List.filterMap_replicate]
  pending := by simp [spawn, Dispatcher.unadded, List.countP_replicate, Worker.isUnsubtracted]
  order _ := by simp [spawn, queued, Worker.toStart, List.filterMap_replicate]

/-- A group with one thread that makes a step. -/
theorem single_thread {g : WorkerGroup β} {i : Nat} {w : Worker β} (at_ : g.threads[i]? = some w)
    (one : g.threads.length = 1) (w' : Worker β) : g.threads = [w] ∧ g.threads.set i w' = [w'] := by
  obtain ⟨v, single⟩ := List.length_eq_one_iff.1 one
  rw [single] at at_ ⊢
  have zero : i = 0 := by
    have := (List.getElem?_eq_some_iff.1 at_).1
    simpa using this
  subst zero
  cases at_
  exact ⟨rfl, rfl⟩

/-- **A step of a thread conserves** if what it moves between the thread and the rest
of the group balances. -/
theorem Conserved.exchange {g g' : WorkerGroup β} {i : Nat} {w : Worker β} (inv : Conserved g)
    (at_ : g.threads[i]? = some w) (w' : Worker β) (threads : g'.threads = g.threads)
    (enqueued : g'.enqueued = g.enqueued) (dispatcher : g'.dispatcher = g.dispatcher)
    (bundles : (↑g'.queued + ↑w'.holding.toList + ↑g'.finished : Multiset β) =
      ↑g.queued + ↑w.holding.toList + ↑g.finished)
    (runs : (↑g'.started + ↑w.inRun.toList + ↑g.finished : Multiset β) =
      ↑g.started + ↑w'.inRun.toList + ↑g'.finished)
    (pending : g'.numPending + (g.queue.length + if w.isUnsubtracted then 1 else 0 : Nat) =
      g.numPending + (g'.queue.length + if w'.isUnsubtracted then 1 else 0 : Nat))
    (order : g'.started ++ w'.toStart.toList ++ g'.queued = g.started ++ w.toStart.toList ++ g.queued) :
    Conserved (g'.setThread i w') := by
  have held := ThreadPool.filterMap_set at_ w' Worker.holding
  have inRun := ThreadPool.filterMap_set at_ w' Worker.inRun
  have unsubtracted := ThreadPool.countP_set at_ w' Worker.isUnsubtracted
  constructor
  · show (↑g'.enqueued : Multiset β) =
      ↑g'.queued + ↑((g'.threads.set i w').filterMap Worker.holding) + ↑g'.finished
    rw [enqueued, threads, inv.bundles]
    apply add_right_cancel (b := (↑w.holding.toList : Multiset β))
    calc (↑g.queued + ↑g.beingRun + ↑g.finished + ↑w.holding.toList : Multiset β)
        = ↑g.queued + ↑w.holding.toList + ↑g.finished + ↑g.beingRun := by ac_rfl
      _ = ↑g'.queued + ↑w'.holding.toList + ↑g'.finished + ↑g.beingRun := by rw [bundles]
      _ = ↑g'.queued + (↑g.beingRun + ↑w'.holding.toList) + ↑g'.finished := by ac_rfl
      _ = _ := by rw [beingRun, ← held]; ac_rfl
  · show (↑g'.started : Multiset β) = ↑((g'.threads.set i w').filterMap Worker.inRun) + ↑g'.finished
    rw [threads]
    apply add_right_cancel (b := (↑w.inRun.toList + ↑g.finished : Multiset β))
    calc (↑g'.started + (↑w.inRun.toList + ↑g.finished) : Multiset β)
        = ↑g.started + ↑w'.inRun.toList + ↑g'.finished := by rw [← add_assoc, runs]
      _ = ↑(g.threads.filterMap Worker.inRun) + ↑w'.inRun.toList + (↑g'.finished + ↑g.finished) := by
          rw [inv.runs]; ac_rfl
      _ = _ := by rw [← inRun]; ac_rfl
  · show g'.numPending + g'.dispatcher.unadded =
      g'.queue.length + (g'.threads.set i w').countP Worker.isUnsubtracted
    have before := inv.pending
    rw [threads, dispatcher]
    omega
  · show (g'.threads.set i w').length = 1 → g'.started ++ (g'.threads.set i w').filterMap Worker.toStart ++
      g'.queued = g'.enqueued
    intro one
    rw [threads, List.length_set] at one
    obtain ⟨single, single'⟩ := single_thread at_ one w'
    have lone : ∀ v : Worker β, [v].filterMap Worker.toStart = v.toStart.toList := fun v => by
      cases kept : v.toStart <;> simp [kept]
    rw [enqueued, threads, single', lone, order, ← lone w, ← single]
    exact inv.order one

/-- A step between program points at which the thread has no bundle. -/
theorem Conserved.idle {g g' : WorkerGroup β} {i : Nat} {w w' : Worker β} (inv : Conserved g)
    (at_ : g.threads[i]? = some w) (threads : g'.threads = g.threads) (enqueued : g'.enqueued = g.enqueued)
    (dispatcher : g'.dispatcher = g.dispatcher) (queue : g'.queue = g.queue) (started : g'.started = g.started)
    (finished : g'.finished = g.finished) (numPending : g'.numPending = g.numPending)
    (holding : w'.holding = w.holding) (inRun : w'.inRun = w.inRun) (toStart : w'.toStart = w.toStart)
    (unsubtracted : w'.isUnsubtracted = w.isUnsubtracted) : Conserved (g'.setThread i w') := by
  apply inv.exchange at_ w' threads enqueued dispatcher
  · rw [queued, queued, queue, finished, holding]
  · rw [started, finished, inRun]
  · rw [numPending, queue, unsubtracted]
  · rw [queued, queued, queue, started, toStart]

theorem conserved_thread {g g' : WorkerGroup β} {i : Nat} {w w' : Worker β} (tokens : TokensCovered g)
    (inv : Conserved g) (at_ : g.threads[i]? = some w) (effect : ThreadEffect g w w' g') :
    Conserved (g'.setThread i w') := by
  have valid : w.QueueValid := tokens.threads w (List.mem_of_getElem? at_)
  cases effect with
  | acquire token => exact inv.idle at_ rfl rfl rfl rfl rfl rfl rfl rfl rfl rfl rfl
  | exit stopped => exact inv.idle at_ rfl rfl rfl rfl rfl rfl rfl rfl rfl rfl rfl
  | pass ok spinning => exact inv.idle at_ rfl rfl rfl rfl rfl rfl rfl rfl rfl rfl rfl
  | empty queue => exact absurd queue (tokens.queue_ne_nil at_ rfl)
  | spuriousFailure few =>
      obtain ⟨rfl, le⟩ := valid
      rw [dequeueFailed_counts _ _ le]
      exact inv.idle at_ rfl rfl rfl rfl rfl rfl rfl rfl rfl rfl rfl
  | null => exact absurd rfl valid
  | @updatePrio point =>
      obtain ⟨holding, toStart, inRun, unsubtracted⟩ := workerAfter_holds β (g.updatePrio point).1
      exact inv.idle at_ (by simp) (by simp) (by simp) (by simp) (by simp) (by simp) (by simp)
        holding inRun toStart unsubtracted
  | @dequeue _ _ exec queue head =>
      cases exec with
      | none => exact absurd (head ▸ List.mem_cons_self) tokens.nonNull
      | some exec =>
          refine inv.exchange at_ _ rfl rfl rfl ?_ rfl ?_ ?_
          · simp only [queued, head, Worker.holding, Option.toList_some, Option.toList_none, Multiset.coe_nil,
              List.filterMap_cons_some (id_eq _), ← Multiset.cons_coe, ← Multiset.singleton_add]
            ac_rfl
          · simp [head, Worker.isUnsubtracted]
          · simp [queued, head, Worker.toStart]
  | @start exec =>
      refine inv.exchange at_ _ rfl rfl rfl rfl ?_ rfl ?_
      · show (↑(g.started ++ [exec]) + ↑([] : List β) + ↑g.finished : Multiset β) = ↑g.started + ↑[exec] + ↑g.finished
        rw [← Multiset.coe_add, Multiset.coe_nil, add_zero]
      · simp [Worker.toStart, queued]
  | @finish exec =>
      refine inv.exchange at_ _ rfl rfl rfl ?_ ?_ rfl rfl
      · show (↑g.queued + ↑([] : List β) + ↑(g.finished ++ [exec]) : Multiset β) = ↑g.queued + ↑[exec] + ↑g.finished
        rw [← Multiset.coe_add, Multiset.coe_nil]
        ac_rfl
      · show (↑g.started + ↑[exec] + ↑g.finished : Multiset β) = ↑g.started + ↑([] : List β) + ↑(g.finished ++ [exec])
        rw [← Multiset.coe_add, Multiset.coe_nil]
        ac_rfl
  | fetchSub =>
      obtain ⟨holding, toStart, inRun, unsubtracted⟩ := workerAfter_holds β g.callUpdatePrio
      refine inv.exchange at_ _ rfl rfl rfl ?_ ?_ ?_ ?_
      · rw [holding]; rfl
      · rw [inRun]; rfl
      · rw [unsubtracted]
        simp only [Worker.isUnsubtracted, ↓reduceIte, Bool.false_eq_true]
        omega
      · rw [toStart]; rfl

theorem conserved_step {g g' : WorkerGroup β} (tokens : TokensCovered g) (inv : Conserved g)
    (effect : Effect g g') : Conserved g' := by
  cases effect with
  | worker at_ effect => exact conserved_thread tokens inv at_ effect
  | enqueueBulk bundles idle alive =>
      obtain ⟨conserved, runs, pending, order⟩ := inv
      have queued_ : (g.queue ++ bundles.map some).filterMap id = g.queued ++ bundles := by
        simp [queued, List.filterMap_append, List.filterMap_map]
      refine ⟨?_, runs, ?_, fun one => ?_⟩
      · simp only [queued, beingRun, queued_] at conserved ⊢
        rw [← Multiset.coe_add, conserved, ← Multiset.coe_add]
        ac_rfl
      · simp only [idle, Dispatcher.unadded] at pending
        simp only [Dispatcher.unadded, List.length_append, List.length_map]
        push_cast
        omega
      · have := order one
        simp only [queued, queued_] at this ⊢
        rw [← this, List.append_assoc, List.append_assoc, List.append_assoc]
  | fetchAdd at_ =>
      obtain ⟨conserved, runs, pending, order⟩ := inv
      refine ⟨conserved, runs, ?_, order⟩
      simp only [at_, Dispatcher.unadded] at pending
      simp only [unadded_dispatcherAfter]
      omega
  | dispatcherUpdatePrio at_ =>
      obtain ⟨conserved, runs, pending, order⟩ := inv
      refine ⟨by simpa [queued, beingRun] using conserved, by simpa using runs, ?_,
        by simpa [queued] using order⟩
      simp only [at_, Dispatcher.unadded] at pending
      simpa [unadded_dispatcherAfter] using pending
  | release at_ =>
      obtain ⟨conserved, runs, pending, order⟩ := inv
      refine ⟨conserved, runs, ?_, order⟩
      simpa [at_, Dispatcher.unadded] using pending
  | setOk ok => exact ⟨inv.bundles, inv.runs, inv.pending, inv.order⟩
  | setSpinning spinning alive => exact ⟨inv.bundles, inv.runs, inv.pending, inv.order⟩
  | destroy stopped alive idle => exact ⟨inv.bundles, inv.runs, inv.pending, inv.order⟩

theorem conserved_reachable {isMutexGroup : Bool} {priority numberOfThreads : Nat} {g : WorkerGroup β}
    (reachable : (system β isMutexGroup priority numberOfThreads).Reachable g) : Conserved g :=
  (Transition.invariant (fun g => TokensCovered g ∧ Conserved g)
    (fun _ start => by
      rw [start]
      exact ⟨tokensCovered_spawn isMutexGroup priority numberOfThreads,
        conserved_spawn isMutexGroup priority numberOfThreads⟩)
    (fun _ _ _ ⟨tokens, inv⟩ _ stepped =>
      ⟨tokensCovered_step tokens (step_cases stepped), conserved_step tokens inv (step_cases stepped)⟩)
    reachable).2

/-- The batch the dispatcher has not added to `num_pending` is still queued. -/
theorem unadded_le_queue {g : WorkerGroup β} (tokens : TokensCovered g) :
    g.dispatcher.unadded ≤ g.queue.length := by
  have le : g.dispatcher.unadded ≤ g.dispatcher.unreleased := by
    cases g.dispatcher <;> simp [Dispatcher.unadded, Dispatcher.unreleased]
  cases alive : g.destroyed with
  | false =>
      have := tokens.alive alive
      rw [WorkerGroup.tokens] at this
      omega
  | true =>
      have stopped := (tokens.dead alive).2
      revert stopped
      cases g.dispatcher <;> simp [Dispatcher.stopped, Dispatcher.unadded]

theorem threads_length_reachable {isMutexGroup : Bool} {priority numberOfThreads : Nat} {g : WorkerGroup β}
    (reachable : (system β isMutexGroup priority numberOfThreads).Reachable g) :
    g.threads.length = numberOfThreads := by
  refine Transition.invariant (fun g => g.threads.length = numberOfThreads)
    (fun _ start => by rw [start, spawn, List.length_replicate]) (fun g _ g' same _ stepped => ?_) reachable
  cases step_cases stepped with
  | worker at_ effect => rw [setThread, List.length_set, effect.frame.1, same]
  | dispatcherUpdatePrio at_ => simpa using same
  | _ => exact same

theorem isMutexGroup_reachable {isMutexGroup : Bool} {priority numberOfThreads : Nat} {g : WorkerGroup β}
    (reachable : (system β isMutexGroup priority numberOfThreads).Reachable g) :
    g.isMutexGroup = isMutexGroup := by
  refine Transition.invariant (fun g => g.isMutexGroup = isMutexGroup) (fun _ start => by rw [start]; rfl)
    (fun g _ g' same _ stepped => ?_) reachable
  cases step_cases stepped with
  | worker at_ effect => exact effect.frame.2.2.2.2.2.2.trans same
  | dispatcherUpdatePrio at_ => simpa using same
  | _ => exact same

/-- **Each bundle is run exactly once, and counted while it is pending**: in
every state reached from a spawned group, the bundles ever enqueued are those
queued, those being run and those finished; what was started is in its `run` or
finished; `num_pending` counts what is queued or not yet subtracted, less the
batch not yet added, and is not negative; and a single worker starts bundles in
the order in which they were enqueued. -/
theorem bundles_run_once {isMutexGroup : Bool} {priority numberOfThreads : Nat} {g : WorkerGroup β}
    (reachable : (system β isMutexGroup priority numberOfThreads).Reachable g) :
    (↑g.enqueued : Multiset β) = ↑g.queued + ↑g.beingRun + ↑g.finished ∧
      (↑g.started : Multiset β) = ↑(g.threads.filterMap Worker.inRun) + ↑g.finished ∧
      g.numPending =
        g.queue.length + g.threads.countP Worker.isUnsubtracted - (g.dispatcher.unadded : Int) ∧
      0 ≤ g.numPending ∧
      (numberOfThreads = 1 → g.started <+: g.enqueued) := by
  obtain ⟨bundles, runs, pending, order⟩ := conserved_reachable reachable
  have le := unadded_le_queue (tokensCovered_reachable reachable)
  refine ⟨bundles, runs, by omega, by omega, fun one => ?_⟩
  have single := order (by rw [threads_length_reachable reachable, one])
  exact ⟨g.threads.filterMap Worker.toStart ++ g.queued, by rw [← List.append_assoc]; exact single⟩

/-- The worker of a mutex group is in its first bundle while the second batch is
enqueued and not added. -/
def secondBatchRun : List (Label Nat) :=
  [.enqueueBulk [1], .fetchAdd, .dispatcherUpdatePrio, .dispatcherUpdatePrio, .release,
    .worker 0 .acquire, .worker 0 .check, .worker 0 .tryDequeue, .worker 0 .startRun, .enqueueBulk [2]]

theorem bundles_run_once_secondBatch :
    ∃ g : WorkerGroup Nat, (system Nat true 5 1).run (spawn true 5 1) secondBatchRun = some g ∧
      g.dispatcher.unadded = 1 ∧ g.beingRun = [1] ∧ g.enqueued = [1, 2] ∧
      (↑g.enqueued : Multiset Nat) = ↑g.queued + ↑g.beingRun + ↑g.finished ∧
      (↑g.started : Multiset Nat) = ↑(g.threads.filterMap Worker.inRun) + ↑g.finished ∧
      g.numPending =
        g.queue.length + g.threads.countP Worker.isUnsubtracted - (g.dispatcher.unadded : Int) ∧
      0 ≤ g.numPending ∧ ((1 = 1) → g.started <+: g.enqueued) := by
  have values : ((system Nat true 5 1).run (spawn true 5 1) secondBatchRun).map
      (fun g => (g.dispatcher.unadded, g.beingRun, g.enqueued)) = some (1, [1], [1, 2]) := by decide
  obtain ⟨g, ran, values⟩ := Option.map_eq_some_iff.1 values
  simp only [Prod.mk.injEq] at values
  obtain ⟨unadded, held, enqueued⟩ := values
  exact ⟨g, ran, unadded, held, enqueued, bundles_run_once (Transition.reachableWhile_run (.init rfl) ran)⟩

end WorkerGroup

end PreemptiveExecutor
