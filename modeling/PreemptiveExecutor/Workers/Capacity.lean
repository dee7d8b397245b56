/-
# Workers.Capacity — the semaphore and its least maximum

`std::counting_semaphore<_SEM_MAX_AT_LEAST>` may be released by at most its
maximum less its current count; more is undefined behaviour.  The dispatcher
releases one token for each bundle and never looks at the count, so a worker that
is slow enough lets it grow past any bound (`release_overflows`).

A release is within the maximum if its batch was, on top of the tokens in the
semaphore at the time it was enqueued: from then on workers only take tokens
away.  A batch that was not, need only be released before a worker moves
(`release_within_capacity`).
-/
import PreemptiveExecutor.Workers.Conservation

namespace PreemptiveExecutor

open Theory

set_option autoImplicit false

/-- `_SEM_MAX_AT_LEAST`. -/
def semMaxAtLeast : Nat := 50000

variable {β : Type}

namespace WorkerGroup

/-- The precondition of the `release` the dispatcher is about to make. -/
def ReleaseValid (g : WorkerGroup β) : Prop :=
  ∀ n, g.dispatcher = .releasing n → n + g.semaphore ≤ semMaxAtLeast

/-- A batch is handed over only if the semaphore has room for it. -/
def WithinCapacity (g : WorkerGroup β) : Label β → Prop
  | .enqueueBulk bundles => bundles.length + g.semaphore ≤ semMaxAtLeast
  | _ => True

instance (g : WorkerGroup β) : ∀ label : Label β, Decidable (WithinCapacity g label)
  | .enqueueBulk bundles => inferInstanceAs (Decidable (bundles.length + g.semaphore ≤ semMaxAtLeast))
  | .fetchAdd | .dispatcherUpdatePrio | .release | .worker _ _ | .setOk _ | .setSpinning _ | .destroy =>
      inferInstanceAs (Decidable True)

/-- While a batch is under way the semaphore has room for it. -/
structure RoomForBatch (g : WorkerGroup β) : Prop where
  room : g.dispatcher.stopped = false → g.dispatcher.unreleased + g.semaphore ≤ semMaxAtLeast

/-- The dispatcher goes on with its batch and the semaphore has not grown. -/
theorem RoomForBatch.goesOn {g g' : WorkerGroup β} (inv : RoomForBatch g)
    (underWay : g.dispatcher.stopped = false) (batch : g'.dispatcher.unreleased ≤ g.dispatcher.unreleased)
    (tokens : g'.semaphore ≤ g.semaphore) : RoomForBatch g' := by
  have before := inv.room underWay
  exact ⟨fun _ => by omega⟩

theorem roomForBatch_step {g g' : WorkerGroup β} {label : Label β} (inv : RoomForBatch g)
    (within : WithinCapacity g label) (stepped : g.step label = some g') : RoomForBatch g' := by
  cases label with
  | enqueueBulk bundles =>
      obtain ⟨-, rfl⟩ := step_enqueueBulk stepped
      exact ⟨fun _ => within⟩
  | fetchAdd =>
      obtain ⟨n, at_, rfl⟩ := step_fetchAdd stepped
      refine inv.goesOn (by rw [at_]; rfl) ?_ (Nat.le_refl _)
      rw [at_]
      exact unreleased_dispatcherAfter_le n g.callUpdatePrio
  | dispatcherUpdatePrio =>
      obtain ⟨n, point, at_, rfl⟩ := step_dispatcherUpdatePrio stepped
      refine inv.goesOn (by rw [at_]; rfl) ?_ (by simp)
      rw [at_]
      exact unreleased_dispatcherAfter_le n _
  | release =>
      obtain ⟨n, -, rfl⟩ := step_release stepped
      exact ⟨fun underWay => by cases underWay⟩
  | worker i action =>
      obtain ⟨w, w', g₁, -, -, effect, rfl⟩ := step_worker stepped
      have same : (g₁.setThread i w').dispatcher = g.dispatcher := effect.frame.2.1
      have fewer : g₁.semaphore ≤ g.semaphore := by cases effect <;> simp
      refine ⟨fun underWay => ?_⟩
      rw [same] at underWay ⊢
      have before := inv.room underWay
      change g.dispatcher.unreleased + g₁.semaphore ≤ _
      omega
  | setOk ok => cases stepped; exact ⟨inv.room⟩
  | setSpinning spinning =>
      obtain ⟨-, rfl⟩ := step_setSpinning stepped
      exact ⟨inv.room⟩
  | destroy =>
      obtain ⟨guard, rfl⟩ := step_destroy stepped
      refine ⟨fun underWay => ?_⟩
      -- the destructor runs only while no batch is under way
      rw [guard.2.2] at underWay
      cases underWay

/-! ## The dispatcher alone -/

section Alone

variable {T : Transition (WorkerGroup β) (Label β)} {g : WorkerGroup β} {n : Nat}

/-- From this state the dispatcher alone comes to the release of its batch. -/
def ComesToRelease (T : Transition (WorkerGroup β) (Label β)) (g : WorkerGroup β) (n : Nat) : Prop :=
  ∃ g', T.Reachable g' ∧ g'.dispatcher = .releasing n ∧ g'.semaphore = g.semaphore

/-- A step of `update_prio` that changes neither the semaphore nor the threads. -/
theorem ComesToRelease.step_back (steps : T.step = step) (reachable : T.Reachable g) {point : UpdatePrio}
    (at_ : g.dispatcher = .updating n point)
    (later : T.Reachable { (g.updatePrio point).2 with dispatcher := dispatcherAfter n (g.updatePrio point).1 } →
      ComesToRelease T { (g.updatePrio point).2 with dispatcher := dispatcherAfter n (g.updatePrio point).1 } n) :
    ComesToRelease T g n := by
  have stepped : T.step g .dispatcherUpdatePrio =
      some { (g.updatePrio point).2 with dispatcher := dispatcherAfter n (g.updatePrio point).1 } := by
    rw [steps, step, at_]
  obtain ⟨g', reached, releasing, same⟩ := later (reachable.step trivial stepped)
  exact ⟨g', reached, releasing, same.trans (updatePrio_semaphore g point)⟩

/-- Nothing keeps `update_prio` of a mutex group with one thread from returning. -/
theorem updating_comesToRelease (steps : T.step = step) {point : UpdatePrio} (reachable : T.Reachable g)
    (single : g.threads.length = 1) (at_ : g.dispatcher = .updating n point) :
    ComesToRelease T g n := by
  have store : ∀ (g : WorkerGroup β) (shouldBoost : Bool), T.Reachable g →
      g.dispatcher = .updating n (.storeBoosted shouldBoost) → ComesToRelease T g n :=
    fun g shouldBoost reachable at_ =>
      .step_back steps reachable at_ fun reached => ⟨_, reached, rfl, rfl⟩
  have set_ : ∀ (g : WorkerGroup β) (shouldBoost : Bool), T.Reachable g →
      g.dispatcher = .updating n (.setFifoPrio shouldBoost) → ComesToRelease T g n :=
    fun g shouldBoost reachable at_ =>
      .step_back steps reachable at_ fun reached => store _ shouldBoost reached rfl
  have compare : ∀ (g : WorkerGroup β) (shouldBoost : Bool), g.threads.length = 1 → T.Reachable g →
      g.dispatcher = .updating n (.loadBoosted shouldBoost) → ComesToRelease T g n := by
    intro g shouldBoost single reachable at_
    refine .step_back steps reachable at_ fun reached => ?_
    by_cases equal : shouldBoost = g.isBoosted
    · refine ⟨_, reached, ?_, rfl⟩
      simp [updatePrio, equal, dispatcherAfter]
    · apply set_ _ shouldBoost reached
      simp [updatePrio, equal, single, dispatcherAfter]
  cases point with
  | loadPending => exact .step_back steps reachable at_ fun reached => compare _ _ single reached rfl
  | loadBoosted shouldBoost => exact compare g shouldBoost single reachable at_
  | setFifoPrio shouldBoost => exact set_ g shouldBoost reachable at_
  | storeBoosted shouldBoost => exact store g shouldBoost reachable at_

/-- A batch that is enqueued can be released before any worker moves. -/
theorem enqueued_comesToRelease (steps : T.step = step) (mutex : g.isMutexGroup = true → g.threads.length = 1)
    (reachable : T.Reachable g) (at_ : g.dispatcher = .enqueued n) : ComesToRelease T g n := by
  have stepped : T.step g .fetchAdd = some { g with
      numPending := g.numPending + n
      dispatcher := dispatcherAfter n g.callUpdatePrio } := by
    rw [steps, step, at_]
  have added := reachable.step trivial stepped
  cases isMutex : g.isMutexGroup with
  | false => exact ⟨_, added, by simp [callUpdatePrio, isMutex, dispatcherAfter], rfl⟩
  | true =>
      have called : dispatcherAfter n g.callUpdatePrio = .updating n .loadPending := by
        simp [callUpdatePrio, isMutex, dispatcherAfter]
      have comes := updating_comesToRelease steps added (mutex isMutex) called
      exact comes

end Alone

/-! ## Runs -/

theorem roomForBatch_reachable {isMutexGroup : Bool} {priority numberOfThreads : Nat} {g : WorkerGroup β}
    (reachable : (system β isMutexGroup priority numberOfThreads).ReachableWhile WithinCapacity g) :
    RoomForBatch g :=
  Transition.invariant RoomForBatch (fun _ start => by rw [start]; exact ⟨fun underWay => by cases underWay⟩)
    (fun _ _ _ inv met stepped => roomForBatch_step inv met stepped) reachable

/-- **Every release is within the semaphore's maximum** in a run in which every
batch was, on top of the tokens there when it was enqueued; and a batch that was
not can be released with no worker step in between, past the maximum. -/
theorem release_within_capacity (isMutexGroup : Bool) (priority numberOfThreads : Nat) :
    (∀ g, (system β isMutexGroup priority numberOfThreads).ReachableWhile WithinCapacity g →
      g.ReleaseValid) ∧
    ((isMutexGroup = true → numberOfThreads = 1) →
      ∀ g bundles g', (system β isMutexGroup priority numberOfThreads).Reachable g →
        g.step (.enqueueBulk bundles) = some g' → ¬ WithinCapacity g (.enqueueBulk bundles) →
        ∃ after, (system β isMutexGroup priority numberOfThreads).Reachable after ∧ ¬ after.ReleaseValid) := by
  refine ⟨fun g reachable n releasing => ?_, fun shape g bundles g' reachable enqueued exceeds => ?_⟩
  · have room := (roomForBatch_reachable reachable).room
    rw [releasing] at room
    exact room rfl
  · have reached := Transition.ReachableWhile.step (T := system β isMutexGroup priority numberOfThreads)
      reachable (l := .enqueueBulk bundles) trivial enqueued
    have mutex : g'.isMutexGroup = true → g'.threads.length = 1 := fun isMutex => by
      rw [threads_length_reachable reached, shape (isMutexGroup_reachable reached ▸ isMutex)]
    obtain ⟨-, rfl⟩ := step_enqueueBulk enqueued
    obtain ⟨after, reachedAfter, releasing, same⟩ := enqueued_comesToRelease rfl mutex reached rfl
    refine ⟨after, reachedAfter, fun valid => exceeds ?_⟩
    have room := valid _ releasing
    rwa [same] at room

/-! ### A slow worker -/

/-- Batches of one bundle while the worker does not move. -/
theorem slowWorker (count : Nat) :
    ∃ g : WorkerGroup Nat, (system Nat false 5 1).Reachable g ∧ g.dispatcher = .idle ∧
      g.destroyed = false ∧ g.isMutexGroup = false ∧ g.semaphore = count := by
  induction count with
  | zero => exact ⟨_, .init rfl, rfl, rfl, rfl, rfl⟩
  | succ count ih =>
      obtain ⟨g, reachable, idle, alive, reentrant, tokens⟩ := ih
      have enqueued : (system Nat false 5 1).step g (.enqueueBulk [0]) = some { g with
          queue := g.queue ++ [some 0], enqueued := g.enqueued ++ [0], dispatcher := .enqueued 1 } := by
        simp [system, step, idle, alive]
      have added := (reachable.step trivial enqueued).step (l := .fetchAdd) trivial rfl
      have released := added.step (l := .release) trivial (by
        simp [system, step, callUpdatePrio, reentrant, dispatcherAfter]
        rfl)
      exact ⟨_, released, rfl, alive, rfl, congrArg Nat.succ tokens⟩

/-- **The semaphore can be released past its maximum**: 50000 bundles are enqueued
while the worker is busy with something else, and then one more. -/
theorem release_overflows :
    ∃ g : WorkerGroup Nat, (system Nat false 5 1).Reachable g ∧ g.dispatcher = .releasing 1 ∧
      g.semaphore = 50000 ∧ ¬ g.ReleaseValid := by
  obtain ⟨g, reachable, idle, alive, reentrant, tokens⟩ := slowWorker 50000
  have enqueued : (system Nat false 5 1).step g (.enqueueBulk [0]) = some { g with
      queue := g.queue ++ [some 0], enqueued := g.enqueued ++ [0], dispatcher := .enqueued 1 } := by
    simp [system, step, idle, alive]
  have added := (reachable.step trivial enqueued).step (l := .fetchAdd) trivial rfl
  have releasing : dispatcherAfter 1 g.callUpdatePrio = .releasing 1 := by
    simp [callUpdatePrio, reentrant, dispatcherAfter]
  refine ⟨_, added, releasing, tokens, fun valid => ?_⟩
  have room := valid 1 releasing
  change 1 + g.semaphore ≤ semMaxAtLeast at room
  rw [tokens, semMaxAtLeast] at room
  omega

/-- The second batch comes while one of the tokens of the first is left. -/
def batchOfTwoRun : List (Label Nat) :=
  [.enqueueBulk [1, 2], .fetchAdd, .release, .worker 0 .acquire, .enqueueBulk [3, 4], .fetchAdd]

theorem release_within_capacity_batchOfTwo :
    ∃ g : WorkerGroup Nat,
      (system Nat false 5 2).runWhile WithinCapacity (spawn false 5 2) batchOfTwoRun = some g ∧
      g.dispatcher = .releasing 2 ∧ g.semaphore = 1 ∧ g.ReleaseValid := by
  have values : ((system Nat false 5 2).runWhile WithinCapacity (spawn false 5 2) batchOfTwoRun).map
      (fun g => (g.dispatcher, g.semaphore)) = some (.releasing 2, 1) := by decide
  obtain ⟨g, ran, values⟩ := Option.map_eq_some_iff.1 values
  obtain ⟨releasing, one⟩ := Prod.mk.inj values
  exact ⟨g, ran, releasing, one,
    (release_within_capacity false 5 2).1 g (Transition.reachableWhile_run (.init rfl) ran)⟩

end WorkerGroup

end PreemptiveExecutor
