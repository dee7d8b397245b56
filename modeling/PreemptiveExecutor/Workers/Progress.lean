/-
# Workers.Progress — a worker group runs everything it has been handed

The internal steps of a group are those of its threads and of the dispatcher with the
batch it is handing over: everything but a new batch and shutdown.  `work` weighs
what is still to do: at most 20 steps for a token, fewer for a thread or a batch that
is further on.  Every internal step lowers it, so the group comes to rest.

At rest, before shutdown, nothing is left (`AtRest.finished`): a thread that waits is
not waiting for a token that somebody else holds, and by the balance of the tokens
no element is queued without one.
-/
import PreemptiveExecutor.Theory.Quiescence
import PreemptiveExecutor.Workers.TokenBalance

namespace PreemptiveExecutor

open Theory

set_option autoImplicit false

variable {β : Type}

/-! ## What is left to do -/

/-- The steps of `update_prio` from a point on, at most. -/
def UpdatePrio.work : UpdatePrio → Nat
  | .loadPending => 4
  | .loadBoosted _ => 3
  | .setFifoPrio _ => 2
  | .storeBoosted _ => 1

/-- The steps of a thread until it waits again, at most. -/
def Worker.work : Worker β → Nat
  | .acquired => 19
  | .dequeuing _ spurious => 18 - spurious
  | .dequeued _ => 7
  | .running _ => 6
  | .ran _ => 5
  | .updating point => point.work
  | _ => 0

/-- The steps that are to come of a batch: those of the dispatcher, and 20 for each
bundle. -/
def Dispatcher.work : Dispatcher → Nat
  | .enqueued n => 6 + 20 * n
  | .updating n point => point.work + 1 + 20 * n
  | .releasing n => 1 + 20 * n
  | _ => 0

namespace WorkerGroup

def work (g : WorkerGroup β) : Nat :=
  20 * g.semaphore + (g.threads.map Worker.work).sum + g.dispatcher.work

/-- Neither a new batch nor shutdown. -/
def Label.Internal : Label β → Prop
  | .enqueueBulk _ => False
  | .setOk _ => False
  | .setSpinning _ => False
  | .destroy => False
  | _ => True

/-- A group that nobody has told to stop. -/
structure Going (g : WorkerGroup β) : Prop where
  covered : TokensCovered g
  balanced : Balanced g
  sole : g.isMutexGroup = true → g.threads.length = 1
  ok : g.ok = true
  spinning : g.spinning = true
  alive : g.destroyed = false
  stays : .exited ∉ g.threads

/-! ## Every internal step does some of the work -/

/-- What is left of `update_prio` after one of its steps. -/
def UpdatePrioResult.work : UpdatePrioResult → Nat
  | .inside point => point.work
  | _ => 0

theorem workerAfter_work (result : UpdatePrioResult) : (workerAfter result : Worker β).work = result.work := by
  cases result <;> rfl

theorem dispatcherAfter_work_le (n : Nat) (result : UpdatePrioResult) :
    (dispatcherAfter n result).work ≤ result.work + 1 + 20 * n := by
  cases result with
  | inside point => exact Nat.le_refl _
  | returned => simp [dispatcherAfter, Dispatcher.work, UpdatePrioResult.work]
  | threw what => exact Nat.zero_le _

theorem callUpdatePrio_work (g : WorkerGroup β) : g.callUpdatePrio.work ≤ 4 := by
  unfold callUpdatePrio
  split
  · exact Nat.le_refl 4
  · exact Nat.zero_le 4

theorem updatePrio_work (g : WorkerGroup β) (point : UpdatePrio) :
    (g.updatePrio point).1.work < point.work := by
  cases point with
  | loadBoosted shouldBoost =>
      simp only [updatePrio]
      split
      · exact Nat.zero_lt_succ 2
      · split
        · exact Nat.zero_lt_succ 2
        · exact Nat.lt_succ_self 2
  | loadPending => exact Nat.lt_succ_self 3
  | setFifoPrio shouldBoost => exact Nat.lt_succ_self 1
  | storeBoosted shouldBoost => exact Nat.lt_succ_self 0

/-- A thread that takes a token or goes on. -/
theorem work_setThread {g g' : WorkerGroup β} {i : Nat} {w w' : Worker β} (at_ : g.threads[i]? = some w)
    (threads : g'.threads = g.threads) (dispatcher : g'.dispatcher = g.dispatcher)
    (less : 20 * g'.semaphore + w'.work < 20 * g.semaphore + w.work) : (g'.setThread i w').work < g.work := by
  have moved := ThreadPool.sum_set at_ w' Worker.work
  simp only [work, setThread, threads, dispatcher]
  omega

theorem thread_work {g g' : WorkerGroup β} {i : Nat} {w w' : Worker β} (covered : TokensCovered g)
    (at_ : g.threads[i]? = some w) (effect : ThreadEffect g w w' g') : (g'.setThread i w').work < g.work := by
  obtain ⟨threads, dispatcher, -⟩ := effect.frame
  have valid : w.QueueValid := covered.threads w (List.mem_of_getElem? at_)
  have does := fun less => @work_setThread _ g g' i w w' at_ threads dispatcher less
  cases effect with
  | acquire token =>
      refine does ?_
      show 20 * (g.semaphore - 1) + 19 < 20 * g.semaphore + 0
      omega
  | exit stopped =>
      refine does ?_
      show 20 * g.semaphore + 0 < 20 * g.semaphore + 19
      omega
  | pass ok going =>
      refine does ?_
      show 20 * g.semaphore + (18 - 0) < 20 * g.semaphore + 19
      omega
  | dequeue head =>
      obtain ⟨-, le⟩ := valid
      refine does ?_
      simp only [Worker.work]
      omega
  | empty queue => exact absurd queue (covered.queue_ne_nil at_ rfl)
  | spuriousFailure few =>
      obtain ⟨rfl, le⟩ := valid
      rw [dequeueFailed_counts _ _ le] at does ⊢
      refine does ?_
      simp only [Worker.work]
      omega
  | null => exact absurd rfl valid
  | start =>
      refine does ?_
      simp only [Worker.work]
      omega
  | finish =>
      refine does ?_
      simp only [Worker.work]
      omega
  | fetchSub =>
      have less := g.callUpdatePrio_work
      refine does ?_
      rw [workerAfter_work]
      show 20 * g.semaphore + _ < 20 * g.semaphore + 5
      omega
  | updatePrio =>
      rename_i point
      have less := g.updatePrio_work point
      refine does ?_
      rw [workerAfter_work, updatePrio_semaphore]
      show 20 * g.semaphore + _ < 20 * g.semaphore + point.work
      omega

theorem step_work {g g' : WorkerGroup β} {label : Label β} (covered : TokensCovered g)
    (internal : label.Internal) (stepped : g.step label = some g') : g'.work < g.work := by
  cases label with
  | worker i action =>
      obtain ⟨w, w', g₁, at_, -, effect, rfl⟩ := step_worker stepped
      exact thread_work covered at_ effect
  | fetchAdd =>
      obtain ⟨n, at_, rfl⟩ := step_fetchAdd stepped
      have le := dispatcherAfter_work_le n g.callUpdatePrio
      have less := g.callUpdatePrio_work
      have before : g.dispatcher.work = 6 + 20 * n := by rw [at_]; rfl
      simp only [work]
      omega
  | dispatcherUpdatePrio =>
      obtain ⟨n, point, at_, rfl⟩ := step_dispatcherUpdatePrio stepped
      have le := dispatcherAfter_work_le n (g.updatePrio point).1
      have less := g.updatePrio_work point
      have before : g.dispatcher.work = point.work + 1 + 20 * n := by rw [at_]; rfl
      simp only [work, updatePrio_semaphore, updatePrio_threads]
      omega
  | release =>
      obtain ⟨n, at_, rfl⟩ := step_release stepped
      simp only [work, at_, Dispatcher.work]
      omega
  | enqueueBulk bundles => cases internal
  | setOk ok => cases internal
  | setSpinning spinning => cases internal
  | destroy => cases internal

/-! ## Nobody stops -/

theorem updatePrio_ok (g : WorkerGroup β) (point : UpdatePrio) : (g.updatePrio point).2.ok = g.ok := by
  cases point with
  | loadBoosted shouldBoost =>
      simp only [updatePrio]
      split
      · rfl
      · split <;> rfl
  | loadPending | setFifoPrio shouldBoost | storeBoosted shouldBoost => rfl

theorem Going.step {g g' : WorkerGroup β} {label : Label β} (going : Going g)
    (staysOn : ∀ on, label = .setOk on ∨ label = .setSpinning on → on = true) (alive : label ≠ .destroy)
    (stepped : g.step label = some g') : Going g' := by
  have covered := tokensCovered_step going.covered (step_cases stepped)
  have balanced := balanced_step going.covered going.sole going.balanced (step_cases stepped)
  obtain ⟨-, -, sole, ok, spinning, notDestroyed, stays⟩ := going
  cases label with
  | worker i action =>
      obtain ⟨w, w', g₁, at_, -, effect, rfl⟩ := step_worker stepped
      obtain ⟨threads, -, sameSpinning, sameDestroyed, -, -, sameMutex⟩ := effect.frame
      refine ⟨covered, balanced, ?_, ?_, sameSpinning.trans spinning, sameDestroyed.trans notDestroyed, ?_⟩
      · intro mutex
        rw [setThread, List.length_set, threads]
        exact sole (sameMutex ▸ mutex)
      · rw [setThread]
        cases effect <;> first | exact ok | exact (updatePrio_ok g _).trans ok
      · intro exited
        rw [setThread, threads] at exited
        rcases List.mem_or_eq_of_mem_set exited with old | here
        · exact stays old
        · cases effect with
          | exit stopped =>
              rcases stopped with notOk | notSpinning
              · rw [ok] at notOk; cases notOk
              · rw [spinning] at notSpinning; cases notSpinning
          | empty | spuriousFailure =>
              unfold dequeueFailed at here
              split at here <;> cases here
          | fetchSub =>
              revert here
              cases g.callUpdatePrio <;> rintro ⟨⟩
          | @updatePrio point =>
              revert here
              cases (g.updatePrio point).1 <;> rintro ⟨⟩
          | _ => cases here
  | enqueueBulk bundles =>
      obtain ⟨-, rfl⟩ := step_enqueueBulk stepped
      exact ⟨covered, balanced, sole, ok, spinning, notDestroyed, stays⟩
  | fetchAdd =>
      obtain ⟨n, -, rfl⟩ := step_fetchAdd stepped
      exact ⟨covered, balanced, sole, ok, spinning, notDestroyed, stays⟩
  | dispatcherUpdatePrio =>
      obtain ⟨n, point, -, rfl⟩ := step_dispatcherUpdatePrio stepped
      refine ⟨covered, balanced, by simpa using sole, (updatePrio_ok g point).trans ok,
        by simpa using spinning, by simpa using notDestroyed, by simpa using stays⟩
  | release =>
      obtain ⟨n, -, rfl⟩ := step_release stepped
      exact ⟨covered, balanced, sole, ok, spinning, notDestroyed, stays⟩
  | setOk on =>
      cases stepped
      exact ⟨covered, balanced, sole, staysOn on (Or.inl rfl), spinning, notDestroyed, stays⟩
  | setSpinning on =>
      obtain ⟨-, rfl⟩ := step_setSpinning stepped
      exact ⟨covered, balanced, sole, ok, staysOn on (Or.inr rfl), notDestroyed, stays⟩
  | destroy => exact absurd rfl alive

/-! ## At rest -/

/-- A thread that neither waits for a token nor is gone can go on. -/
theorem Balanced.thread_steps {g : WorkerGroup β} (balanced : Balanced g) (covered : TokensCovered g) {i : Nat}
    {w : Worker β} (at_ : g.threads[i]? = some w) (busy : w ≠ .waiting) (stays : w ≠ .exited) :
    ∃ action g', g.step (.worker i action) = some g' := by
  have unthrown := balanced.threads w (List.mem_of_getElem? at_)
  have step_ : ∀ action, g.step (.worker i action) = g.workerStep i w action := by
    intro action
    rw [WorkerGroup.step, at_, Option.bind_some]
  cases w with
  | waiting => exact absurd rfl busy
  | acquired => exact ⟨.check, _, (step_ _).trans rfl⟩
  | dequeuing failedAttempts spurious =>
      obtain ⟨exec, queue, head⟩ := List.exists_cons_of_ne_nil (covered.queue_ne_nil at_ rfl)
      refine ⟨.tryDequeue, { g with queue }.setThread i (.dequeued exec), (step_ _).trans ?_⟩
      simp only [workerStep, head]
  | dequeued exec =>
      cases exec with
      | none => exact ⟨.startRun, _, (step_ _).trans rfl⟩
      | some exec => exact ⟨.startRun, _, (step_ _).trans rfl⟩
  | running exec => exact ⟨.finishRun, _, (step_ _).trans rfl⟩
  | ran exec => exact ⟨.fetchSub, _, (step_ _).trans rfl⟩
  | updating point => exact ⟨.updatePrio, _, (step_ _).trans rfl⟩
  | exited => exact absurd rfl stays
  | threw what => cases unthrown

/-- A thread that waits can take a token. -/
theorem no_tokens {g : WorkerGroup β} {i : Nat} (at_ : g.threads[i]? = some .waiting)
    (rest : ∀ i action, g.step (.worker i action) = none) : g.semaphore = 0 := by
  by_contra some_
  have stuck := rest i .acquire
  rw [WorkerGroup.step, at_, Option.bind_some, workerStep, if_pos (Nat.pos_of_ne_zero some_)] at stuck
  cases stuck

/-- A dispatcher that is not between two batches can go on. -/
theorem Going.dispatcher_steps {g : WorkerGroup β} (going : Going g) (busy : g.dispatcher ≠ .idle) :
    ∃ label g', (label = .fetchAdd ∨ label = .dispatcherUpdatePrio ∨ label = .release) ∧
      g.step label = some g' := by
  have unthrown := going.balanced.dispatcher
  cases at_ : g.dispatcher with
  | idle => exact absurd at_ busy
  | enqueued n =>
      refine ⟨.fetchAdd, { g with
        numPending := g.numPending + n
        dispatcher := dispatcherAfter n g.callUpdatePrio }, Or.inl rfl, ?_⟩
      simp only [WorkerGroup.step, at_]
  | updating n point =>
      refine ⟨.dispatcherUpdatePrio,
        { (g.updatePrio point).2 with dispatcher := dispatcherAfter n (g.updatePrio point).1 },
        Or.inr (Or.inl rfl), ?_⟩
      simp only [WorkerGroup.step, at_]
  | releasing n =>
      refine ⟨.release, { g with semaphore := g.semaphore + n, dispatcher := .idle }, Or.inr (Or.inr rfl), ?_⟩
      simp only [WorkerGroup.step, at_]
  | threw what =>
      rw [at_] at unthrown
      cases unthrown

/-- Everything that was enqueued has been run and subtracted. -/
structure Done (g : WorkerGroup β) : Prop where
  queue : g.queue = []
  beingRun : g.beingRun = []
  finished : g.finished.Perm g.enqueued
  numPending : g.numPending = 0

/-- **A group at rest is done**: if no thread can make a step and the dispatcher is
between two batches, nothing is queued and everything enqueued has finished. -/
theorem Going.done {g : WorkerGroup β} (going : Going g) (conserved : Conserved g) (staffed : g.threads ≠ [])
    (idle : g.dispatcher = .idle) (rest : ∀ i action, g.step (.worker i action) = none) : Done g := by
  have waits : ∀ w ∈ g.threads, w = .waiting := by
    intro w member
    by_contra busy
    obtain ⟨i, at_⟩ := List.getElem?_of_mem member
    have stays : w ≠ .exited := by
      rintro rfl
      exact going.stays member
    obtain ⟨action, g', stepped⟩ := going.balanced.thread_steps going.covered at_ busy stays
    rw [rest] at stepped
    cases stepped
  have noTokens : g.semaphore = 0 := by
    obtain ⟨w, threads, first⟩ := List.exists_cons_of_ne_nil staffed
    have at_ : g.threads[0]? = some .waiting := by
      rw [first, waits w (by rw [first]; exact List.mem_cons_self)]
      rfl
    exact no_tokens at_ rest
  have none_ : ∀ p : Worker β → Bool, p .waiting = false → g.threads.countP p = 0 := by
    intro p notWaiting
    refine List.countP_eq_zero.2 fun w member => ?_
    rw [waits w member, notWaiting]
    exact Bool.false_ne_true
  have queue : g.queue = [] := by
    have tokens := going.balanced.tokens
    rw [WorkerGroup.tokens, noTokens, none_ _ rfl, none_ _ rfl, none_ _ rfl, idle, going.alive] at tokens
    exact List.length_eq_zero_iff.1 tokens.symm
  have beingRun : g.beingRun = [] := by
    refine List.filterMap_eq_nil_iff.2 fun w member => ?_
    rw [waits w member]
    rfl
  obtain ⟨bundles, -, pending, -⟩ := conserved
  refine ⟨queue, beingRun, ?_, ?_⟩
  · rw [queued, queue, beingRun] at bundles
    refine Multiset.coe_eq_coe.1 ?_
    rw [bundles]
    simp
  · rw [idle, queue, none_ _ rfl] at pending
    simpa [Dispatcher.unadded] using pending

end WorkerGroup

end PreemptiveExecutor
