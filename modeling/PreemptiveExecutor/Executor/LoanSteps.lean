/-
# Executor.LoanSteps — what one step does with the loaned messages

Counted for one loan at a time.  A thread keeps the bundle it has dequeued until
after its `run` (`workerStep_loans`), a batch goes from the dispatch loop to a
queue, and the bundling loops sort all they have taken into batches and dropped
bundles (`loans_collected`).  Together: a bundle leaves the executor by being let
go after its `run`, or by being discarded (`systemStep_balanced`).
-/
import PreemptiveExecutor.Executor.Loans

namespace PreemptiveExecutor

open Theory

set_option autoImplicit false

/-! ## Counting loans -/

section Count

variable {loan : Loan}

/-- How often the loan is among those of the bundles. -/
def loanCount (loan : Loan) (bundles : List BundledExecutable) : Nat := (loans bundles).count loan

@[simp] theorem loanCount_nil : loanCount loan [] = 0 := rfl

@[simp] theorem loanCount_append (bundles more : List BundledExecutable) :
    loanCount loan (bundles ++ more) = loanCount loan bundles + loanCount loan more := by
  rw [loanCount, loans, List.filterMap_append, List.count_append]
  rfl

theorem loans_eq_nil_iff {bundles : List BundledExecutable} :
    loans bundles = [] ↔ ∀ loan, loanCount loan bundles = 0 := by
  unfold loanCount
  constructor
  · intro none_ loan
    rw [none_]
    rfl
  · intro zero
    exact List.eq_nil_iff_forall_not_mem.2 fun loan => List.count_eq_zero.1 (zero loan)

/-- `run` returns the loan of the bundle. -/
theorem flatMap_run (bundles : List BundledExecutable) :
    bundles.flatMap BundledExecutable.run = loans bundles := by
  induction bundles with
  | nil => rfl
  | cons bundle bundles ih =>
      rw [List.flatMap_cons, ih]
      cases bundle <;> rfl

/-- What the threads have of a loan, after a step of thread `i`. -/
theorem loanCount_set (loan : Loan) {threads : List (Worker BundledExecutable)} {i : Nat}
    {w : Worker BundledExecutable} (at_ : threads[i]? = some w) (w' : Worker BundledExecutable)
    (has : Worker BundledExecutable → Option BundledExecutable) :
    loanCount loan ((threads.set i w').filterMap has) + loanCount loan (has w).toList =
      loanCount loan (threads.filterMap has) + loanCount loan (has w').toList := by
  have moved := congrArg (fun bundles => (bundles.filterMap BundledExecutable.loan).count loan)
    (ThreadPool.filterMap_set at_ w' has)
  simp only [Multiset.filterMap_add, Multiset.filterMap_coe, Multiset.count_add, Multiset.coe_count]
    at moved
  exact moved

end Count

/-! ## A step of one worker group -/

namespace WorkerGroup

variable {g g' : WorkerGroup BundledExecutable} {loan : Loan}

theorem workerAfter_lets (result : UpdatePrioResult) :
    (workerAfter result : Worker BundledExecutable).exec = none ∧
      (workerAfter result : Worker BundledExecutable).hasRun = none := by
  cases result <;> exact ⟨rfl, rfl⟩

/-- The group after a step that takes bundles of `ended` and `gone` through and out
of thread `i`. -/
theorem loans_setThread {i : Nat} {w w' : Worker BundledExecutable} (at_ : g.threads[i]? = some w)
    (threads : g'.threads = g.threads) {ended gone : List BundledExecutable}
    (bundles : loanCount loan g'.queued + loanCount loan w'.exec.toList + loanCount loan gone =
      loanCount loan g.queued + loanCount loan w.exec.toList)
    (ran : loanCount loan w'.hasRun.toList + loanCount loan gone =
      loanCount loan w.hasRun.toList + loanCount loan ended) :
    loanCount loan (g'.setThread i w').bundles + loanCount loan gone = loanCount loan g.bundles ∧
      loanCount loan (g'.setThread i w').ranBundles + loanCount loan gone =
        loanCount loan g.ranBundles + loanCount loan ended := by
  have exec := loanCount_set loan at_ w' Worker.exec
  have hasRun := loanCount_set loan at_ w' Worker.hasRun
  have queued : (g'.setThread i w').queued = g'.queued := rfl
  have set_ : (g'.setThread i w').threads = g.threads.set i w' := by rw [setThread, threads]
  unfold WorkerGroup.bundles WorkerGroup.ranBundles
  rw [loanCount_append, loanCount_append, queued, set_]
  omega

/-- **A step of a thread**: the loans of the runs that end stay at the thread until
the bundle goes out of scope. -/
theorem workerStep_loans (loan : Loan) {i : Nat} {w : Worker BundledExecutable} {action : WorkerAction}
    (at_ : g.threads[i]? = some w) (moved : g.workerStep i w action = some g') :
    loanCount loan g'.bundles + loanCount loan (w.letsGo action) = loanCount loan g.bundles ∧
      loanCount loan g'.ranBundles + loanCount loan (w.letsGo action) =
        loanCount loan g.ranBundles + loanCount loan (w.finishes action) := by
  unfold workerStep at moved
  split at moved
  · split at moved
    · cases moved
      exact loans_setThread at_ rfl rfl rfl
    · cases moved
  · cases moved
    split
    · exact loans_setThread at_ rfl rfl rfl
    · exact loans_setThread at_ rfl rfl rfl
  · split at moved
    · cases moved
    · rename_i exec queue head
      cases moved
      have queued : g.queued = exec.toList ++ queue.filterMap id := by
        unfold WorkerGroup.queued
        rw [head]
        cases exec <;> rfl
      refine loans_setThread at_ ?_ ?_ ?_
      · rfl
      · rw [queued, loanCount_append]
        show loanCount loan (queue.filterMap id) + loanCount loan exec.toList + 0 = _ + 0
        omega
      · rfl
  · rename_i failedAttempts spurious
    have none_ : ∀ spurious', (dequeueFailed failedAttempts spurious' : Worker BundledExecutable).exec = none ∧
        (dequeueFailed failedAttempts spurious' : Worker BundledExecutable).hasRun = none := by
      intro spurious'
      unfold dequeueFailed
      split <;> exact ⟨rfl, rfl⟩
    split at moved
    · cases moved
      exact loans_setThread at_ rfl (by rw [(none_ 0).1]; rfl) (by rw [(none_ 0).2]; rfl)
    · split at moved
      · cases moved
        exact loans_setThread at_ rfl (by rw [(none_ _).1]; rfl) (by rw [(none_ _).2]; rfl)
      · cases moved
  · cases moved
    exact loans_setThread at_ rfl rfl rfl
  · cases moved
    exact loans_setThread at_ rfl rfl rfl
  · cases moved
    refine loans_setThread at_ rfl rfl ?_
    exact Nat.add_comm _ _
  · cases moved
    obtain ⟨exec, hasRun⟩ := workerAfter_lets g.callUpdatePrio
    refine loans_setThread at_ rfl ?_ ?_
    · rw [exec]; rfl
    · rw [hasRun]; exact Nat.add_comm _ _
  · cases moved
    rename_i point
    obtain ⟨exec, hasRun⟩ := workerAfter_lets (g.updatePrio point).1
    refine loans_setThread at_ (by simp) ?_ ?_
    · rw [exec]; simp [WorkerGroup.queued, Worker.exec, Worker.letsGo]
    · rw [hasRun]; rfl
  · cases moved

/-- The batch of a step. -/
def Label.batch {β : Type} : Label β → List β
  | .enqueueBulk bundles => bundles
  | _ => []

/-- The other steps leave the bundles where they are, apart from a batch that is
enqueued. -/
theorem step_loans {label : Label BundledExecutable} (stepped : g.step label = some g')
    (dispatchers : ∀ i action, label ≠ .worker i action) :
    (∀ loan, loanCount loan g'.bundles = loanCount loan g.bundles + loanCount loan label.batch) ∧
      g'.threads = g.threads := by
  cases label with
  | enqueueBulk bundles =>
      obtain ⟨-, rfl⟩ := step_enqueueBulk stepped
      refine ⟨fun loan => ?_, rfl⟩
      have queued : (g.queue ++ bundles.map some).filterMap id = g.queued ++ bundles := by
        simp [WorkerGroup.queued, List.filterMap_append, List.filterMap_map]
      unfold WorkerGroup.bundles
      simp only [WorkerGroup.queued, queued, loanCount_append, Label.batch]
      omega
  | worker i action => exact absurd rfl (dispatchers i action)
  | fetchAdd =>
      obtain ⟨n, -, rfl⟩ := step_fetchAdd stepped
      exact ⟨fun loan => rfl, rfl⟩
  | dispatcherUpdatePrio =>
      obtain ⟨n, point, -, rfl⟩ := step_dispatcherUpdatePrio stepped
      exact ⟨fun loan => by simp [WorkerGroup.bundles, WorkerGroup.queued, Label.batch], by simp⟩
  | release =>
      obtain ⟨n, -, rfl⟩ := step_release stepped
      exact ⟨fun loan => rfl, rfl⟩
  | setOk ok => cases stepped; exact ⟨fun loan => rfl, rfl⟩
  | setSpinning spinning =>
      obtain ⟨-, rfl⟩ := step_setSpinning stepped
      exact ⟨fun loan => rfl, rfl⟩
  | destroy =>
      obtain ⟨-, rfl⟩ := step_destroy stepped
      exact ⟨fun loan => rfl, rfl⟩

/-- Only a `MutexGroup` has an `update_prio` to be inside of. -/
theorem updating_isMutexGroup {isMutexGroup : Bool} {priority numberOfThreads : Nat}
    (reachable : (system BundledExecutable isMutexGroup priority numberOfThreads).Reachable g) :
    ∀ n point, g.dispatcher = .updating n point → g.isMutexGroup = true := by
  refine Transition.invariant
    (fun g : WorkerGroup BundledExecutable => ∀ n point, g.dispatcher = .updating n point → g.isMutexGroup = true)
    (fun _ start n point at_ => by rw [start] at at_; cases at_) (fun g _ g' inv _ stepped => ?_) reachable
  cases step_cases stepped with
  | enqueueBulk bundles idle alive => rintro _ _ ⟨⟩
  | fetchAdd at_ =>
      intro n point inside
      simp only [callUpdatePrio] at inside
      cases mutex : g.isMutexGroup with
      | true => rfl
      | false => simp [mutex, dispatcherAfter] at inside
  | dispatcherUpdatePrio at_ =>
      intro _ _ _
      rw [updatePrio_isMutexGroup]
      exact inv _ _ at_
  | release at_ => rintro _ _ ⟨⟩
  | worker at_ effect =>
      intro n point inside
      have frame := effect.frame
      exact frame.2.2.2.2.2.2.trans (inv n point (frame.2.1 ▸ inside))
  | setOk ok => exact inv
  | setSpinning spinning alive => exact inv
  | destroy stopped alive idle => exact inv

/-- The sanity check of `update_prio` does not fail. -/
theorem dispatcherUpdatePrio_returns (single : ∀ n point, g.dispatcher = .updating n point → g.threads.length = 1)
    (stepped : g.step .dispatcherUpdatePrio = some g') (what : String) : g'.dispatcher ≠ .threw what := by
  obtain ⟨n, point, at_, rfl⟩ := step_dispatcherUpdatePrio stepped
  have one := single n point at_
  show dispatcherAfter n (g.updatePrio point).1 ≠ _
  cases point with
  | loadPending => rintro ⟨⟩
  | loadBoosted shouldBoost =>
      simp only [updatePrio, one]
      split
      · rintro ⟨⟩
      · rintro ⟨⟩
  | setFifoPrio shouldBoost => rintro ⟨⟩
  | storeBoosted shouldBoost => rintro ⟨⟩

end WorkerGroup

/-! ## All worker groups -/

namespace RunningExecutor

/-- The loans of the bundles that are in a queue or at a thread. -/
def loansAlive (s : RunningExecutor) (e : ExecutorState) (loan : Loan) : Nat :=
  s.sumGroups e fun g => loanCount loan g.bundles

/-- The loans of the bundles that a thread has run and is about to destroy. -/
def loansRan (s : RunningExecutor) (e : ExecutorState) (loan : Loan) : Nat :=
  s.sumGroups e fun g => loanCount loan g.ranBundles

end RunningExecutor

/-- The loans of the bundles that have been collected and not handed over. -/
def Cycle.loansPending (cycle : Cycle) (loan : Loan) : Nat := loanCount loan (cycle.pending.flatMap Prod.snd)

/-! ## A step of the executor -/

/-- What a step does with the loans: what is neither in the dispatch loop nor at a
worker group afterwards has been discarded or let go, and what is let go has run. -/
structure Balanced (e : ExecutorState) (s s' : RunningExecutor) (label : SystemLabel) : Prop where
  kept : ∀ loan, s'.loansAlive e loan + s'.cycle.loansPending loan +
      loanCount loan (e.discarded s s' label) + loanCount loan (s.ofWorker Worker.letsGo label) =
    s.loansAlive e loan + s.cycle.loansPending loan + loanCount loan (e.bundled s label)
  ran : ∀ loan, s'.loansRan e loan + loanCount loan (s.ofWorker Worker.letsGo label) =
    s.loansRan e loan + loanCount loan (s.ofWorker Worker.finishes label)

section Step

variable {e : ExecutorState} {handles : UnorderedMap Ptr Nat} {s s' : RunningExecutor}

theorem Balanced.worker (inv : SystemInv e handles s) {tgid i : Nat} {action : WorkerGroup.WorkerAction}
    (moved : s.stepGroup tgid (.worker i action) = some s') : Balanced e s s' (.worker tgid i action) := by
  obtain ⟨g, g', at_, stepped, isThis⟩ := stepGroup_cases moved
  have groups : s'.groups = Function.update s.groups tgid (some g') := by rw [isThis]
  have cycle : s'.cycle = s.cycle := by rw [isThis]
  obtain ⟨w, w', g₁, thread, workerMoved, -, -⟩ := WorkerGroup.step_worker stepped
  have event : ∀ event, s.ofWorker event (.worker tgid i action) = event w action := by
    intro event
    simp only [RunningExecutor.ofWorker, at_, Option.bind_some, thread]
  constructor
  · intro loan
    have sums := sumGroups_update (inv.mem_workers at_) groups fun g => loanCount loan g.bundles
    have account := (WorkerGroup.workerStep_loans loan thread workerMoved).1
    rw [at_] at sums
    rw [event]
    show s'.loansAlive e loan + s'.cycle.loansPending loan + 0 + _ = _ + 0
    unfold RunningExecutor.loansAlive
    simp only [Option.elim_some] at sums
    rw [cycle]
    omega
  · intro loan
    have sums := sumGroups_update (inv.mem_workers at_) groups fun g => loanCount loan g.ranBundles
    have account := (WorkerGroup.workerStep_loans loan thread workerMoved).2
    rw [at_] at sums
    rw [event, event]
    unfold RunningExecutor.loansRan
    simp only [Option.elim_some] at sums
    omega

/-- A step of the dispatcher on one worker group. -/
theorem stepGroup_loans (inv : SystemInv e handles s) {tgid : Nat} {label : WorkerGroup.Label BundledExecutable}
    (moved : s.stepGroup tgid label = some s') (dispatchers : ∀ i action, label ≠ .worker i action) (loan : Loan) :
    s'.loansAlive e loan = s.loansAlive e loan + loanCount loan label.batch ∧
      s'.loansRan e loan = s.loansRan e loan ∧ s'.cycle = s.cycle := by
  obtain ⟨g, g', at_, stepped, isThis⟩ := stepGroup_cases moved
  have groups : s'.groups = Function.update s.groups tgid (some g') := by rw [isThis]
  have cycle : s'.cycle = s.cycle := by rw [isThis]
  obtain ⟨bundles, threads⟩ := WorkerGroup.step_loans stepped dispatchers
  have alive := sumGroups_update (inv.mem_workers at_) groups fun g => loanCount loan g.bundles
  have ran := sumGroups_update (inv.mem_workers at_) groups fun g => loanCount loan g.ranBundles
  have here := bundles loan
  have same : g'.ranBundles = g.ranBundles := by rw [WorkerGroup.ranBundles, threads]; rfl
  rw [at_] at alive ran
  simp only [Option.elim_some, same] at alive ran
  unfold RunningExecutor.loansAlive RunningExecutor.loansRan
  refine ⟨?_, ?_, cycle⟩
  · rw [here] at alive
    omega
  · omega

theorem stepAll_loans {label : WorkerGroup.Label BundledExecutable}
    (dispatchers : ∀ i action, label ≠ .worker i action) (quiet : ∀ bundles, label ≠ .enqueueBulk bundles)
    (loan : Loan) :
    (s.stepAll label).loansAlive e loan = s.loansAlive e loan ∧
      (s.stepAll label).loansRan e loan = s.loansRan e loan := by
  have each : ∀ id, ((s.stepAll label).groups id).elim 0 (fun g => loanCount loan g.bundles) =
        (s.groups id).elim 0 (fun g => loanCount loan g.bundles) ∧
      ((s.stepAll label).groups id).elim 0 (fun g => loanCount loan g.ranBundles) =
        (s.groups id).elim 0 (fun g => loanCount loan g.ranBundles) := by
    intro id
    show ((s.groups id).map fun g => (g.step label).getD g).elim 0 _ = _ ∧
      ((s.groups id).map fun g => (g.step label).getD g).elim 0 _ = _
    cases s.groups id with
    | none => exact ⟨rfl, rfl⟩
    | some g =>
        simp only [Option.map_some, Option.elim_some]
        cases stepped : g.step label with
        | none => exact ⟨rfl, rfl⟩
        | some g' =>
            obtain ⟨bundles, threads⟩ := WorkerGroup.step_loans stepped dispatchers
            have here := bundles loan
            refine ⟨?_, by rw [Option.getD_some, WorkerGroup.ranBundles, threads]; rfl⟩
            rw [Option.getD_some, here]
            cases label with
            | enqueueBulk batch => exact absurd rfl (quiet batch)
            | _ => rfl
  exact ⟨sumGroups_congr fun id => (each id).1, sumGroups_congr fun id => (each id).2⟩

/-- A step of the dispatcher, or of the outside world. -/
theorem Balanced.dispatcher {label : SystemLabel} (elsewhere : ∀ tgid i action, label ≠ .worker tgid i action)
    (kept : ∀ loan, s'.loansAlive e loan + s'.cycle.loansPending loan + loanCount loan (e.discarded s s' label) =
      s.loansAlive e loan + s.cycle.loansPending loan + loanCount loan (e.bundled s label))
    (ran : ∀ loan, s'.loansRan e loan = s.loansRan e loan) : Balanced e s s' label := by
  have event : ∀ event, s.ofWorker event label = [] := by
    intro event
    cases label with
    | worker tgid i action => exact absurd rfl (elsewhere tgid i action)
    | _ => rfl
  constructor
  · intro loan
    rw [event, loanCount_nil, Nat.add_zero]
    exact kept loan
  · intro loan
    rw [event, event, ran loan]

/-! ### Collecting -/

theorem loanCount_filter_cons {loan : Loan} (p : BundledExecutable → Bool) (bundle : BundledExecutable)
    (bundles : List BundledExecutable) :
    loanCount loan ((bundle :: bundles).filter p) =
      (if p bundle = true then loanCount loan [bundle] else 0) + loanCount loan (bundles.filter p) := by
  by_cases kept : p bundle = true
  · rw [List.filter_cons_of_pos kept, if_pos kept, ← loanCount_append, List.singleton_append]
  · rw [List.filter_cons_of_neg kept, if_neg kept, Nat.zero_add]

/-- Bundles that are dealt out to threadgroups, with those that belong to none. -/
theorem loanCount_dealt {loan : Loan} (key : BundledExecutable → Option Nat) (ids : Finset Nat)
    {bundles : List BundledExecutable}
    (all : ∀ bundle ∈ bundles, ∀ id, key bundle = some id → id ∈ ids) :
    (∑ id ∈ ids, loanCount loan (bundles.filter fun bundle => key bundle = some id)) +
        loanCount loan (bundles.filter fun bundle => key bundle = none) = loanCount loan bundles := by
  induction bundles with
  | nil => simp
  | cons bundle bundles ih =>
      obtain ⟨here, later⟩ := List.forall_mem_cons.1 all
      have rest := ih later
      have both : loanCount loan (bundle :: bundles) = loanCount loan [bundle] + loanCount loan bundles := by
        rw [← loanCount_append, List.singleton_append]
      simp only [loanCount_filter_cons, Finset.sum_add_distrib, decide_eq_true_eq]
      cases isKey : key bundle with
      | none =>
          simp only [reduceCtorEq, ↓reduceIte, Finset.sum_const_zero]
          omega
      | some id =>
          have inIds := here id isKey
          simp only [Option.some.injEq, reduceCtorEq, ↓reduceIte, Finset.sum_ite_eq, if_pos inIds]
          omega

theorem loanCount_flatMap {ι : Type} {loan : Loan} (f : ι → List BundledExecutable) (items : List ι) :
    loanCount loan (items.flatMap f) = (items.map fun i => loanCount loan (f i)).sum := by
  induction items with
  | nil => rfl
  | cons i items ih => rw [List.flatMap_cons, loanCount_append, ih, List.map_cons, List.sum_cons]

/-- A timer has no loaned message. -/
theorem loanCount_taken {loan : Loan} (ready : ReadyHandles) :
    loanCount loan ready.taken = loanCount loan (ready.subscriptions.flatMap ReadySubscription.taken) := by
  have timers : loanCount loan (ready.timers.flatMap ReadyTimer.taken) = 0 := by
    rw [loanCount_flatMap]
    refine List.sum_eq_zero fun n member => ?_
    obtain ⟨timer, -, rfl⟩ := List.mem_map.1 member
    unfold ReadyTimer.taken ReadyTimer.takeAndBundle
    cases timer.call <;> rfl
  rw [ReadyHandles.taken, loanCount_append, timers, Nat.add_zero]

/-- What the bundling loops have taken is collected for a threadgroup or dropped. -/
theorem loans_collected {ready : ReadyHandles} {c : Collected} {loan : Loan} (choices : DispatchChoices)
    (collect : collectBundles (some handles) ready = .ok c) :
    loanCount loan (((choices.order c.bundlesByTgid).entries.map fun pair => (pair.1, pair.2)).flatMap Prod.snd) +
      loanCount loan c.dropped = loanCount loan ready.taken := by
  have parts := map_ordered collect choices (loanCount loan)
  have sum_ := List.sum_toFinset
    (fun id => loanCount loan (ready.taken.filter (·.leadsTo handles id)))
    (choices.order c.bundlesByTgid).keys_nodup
  have all : ∀ bundle ∈ ready.taken, ∀ id, handles.lookup bundle.getRawHandle = some id →
      id ∈ (choices.order c.bundlesByTgid).keys.toFinset := by
    intro bundle member id found
    obtain ⟨bundles, batch, -⟩ := mem_ordered collect choices member found
    exact List.mem_toFinset.2 (AList.mem_keys.1 (UnorderedMap.mem_iff_lookup.2 ⟨bundles, batch⟩))
  rw [loanCount_flatMap, List.map_map, (collectBundles_ok collect).2.1]
  show ((choices.order c.bundlesByTgid).entries.map fun pair => loanCount loan pair.2).sum + _ = _
  rw [parts, ← sum_]
  exact loanCount_dealt (fun bundle => handles.lookup bundle.getRawHandle) _ all

/-! ### Every step -/

/-- A step of the dispatcher that leaves the worker groups as they are. -/
theorem Balanced.cycle {cycle : Cycle} {label : SystemLabel}
    (elsewhere : ∀ tgid i action, label ≠ .worker tgid i action)
    (pending : ∀ loan, cycle.loansPending loan + loanCount loan (e.discarded s { s with cycle } label) =
      s.cycle.loansPending loan + loanCount loan (e.bundled s label)) :
    Balanced e s { s with cycle } label := by
  refine .dispatcher elsewhere (fun loan => ?_) (fun loan => rfl)
  have here := pending loan
  show s.loansAlive e loan + cycle.loansPending loan + _ = _
  omega

/-- The exception that ends a call destroys what is pending. -/
theorem Balanced.unwinds {error : Error} {enqueueOk : Bool} :
    Balanced e s { s with cycle := .threw error } (.nextBatch enqueueOk) := by
  refine .cycle (by rintro _ _ _ ⟨⟩) fun loan => ?_
  show 0 + s.cycle.loansPending loan = s.cycle.loansPending loan + 0
  omega

/-- The dispatcher is in the batch of one worker group. -/
theorem Balanced.handing (inv : SystemInv e handles s) {tgid : Nat} {groupLabel : WorkerGroup.Label BundledExecutable}
    {s₁ : RunningExecutor} {cycle : Cycle} {label : SystemLabel}
    (elsewhere : ∀ tgid i action, label ≠ .worker tgid i action)
    (moved : s.stepGroup tgid groupLabel = some s₁) (dispatchers : ∀ i action, groupLabel ≠ .worker i action)
    (pending : ∀ loan, loanCount loan groupLabel.batch + cycle.loansPending loan +
        loanCount loan (e.discarded s { s₁ with cycle } label) =
      s.cycle.loansPending loan + loanCount loan (e.bundled s label)) :
    Balanced e s { s₁ with cycle } label := by
  refine .dispatcher elsewhere (fun loan => ?_) (fun loan => ?_)
  · have here := pending loan
    have alive := (stepGroup_loans inv moved dispatchers loan).1
    show s₁.loansAlive e loan + cycle.loansPending loan + _ = _
    omega
  · exact (stepGroup_loans inv moved dispatchers loan).2.1

/-- A step on one worker group that hands nothing over. -/
theorem Balanced.stays (inv : SystemInv e handles s) {tgid : Nat} {groupLabel : WorkerGroup.Label BundledExecutable}
    {label : SystemLabel} (elsewhere : ∀ tgid i action, label ≠ .worker tgid i action)
    (moved : s.stepGroup tgid groupLabel = some s') (dispatchers : ∀ i action, groupLabel ≠ .worker i action)
    (quiet : groupLabel.batch = []) (nothing : e.discarded s s' label = []) (noTakes : e.bundled s label = []) :
    Balanced e s s' label := by
  show Balanced e s { s' with cycle := s'.cycle } label
  refine .handing inv elsewhere moved dispatchers fun loan => ?_
  show _ + s'.cycle.loansPending loan + loanCount loan (e.discarded s s' label) = _
  rw [quiet, nothing, noTakes, (stepGroup_loans inv moved dispatchers loan).2.2]
  simp

/-- A step that all worker groups see. -/
theorem Balanced.all {groupLabel : WorkerGroup.Label BundledExecutable} {label : SystemLabel}
    (elsewhere : ∀ tgid i action, label ≠ .worker tgid i action)
    (dispatchers : ∀ i action, groupLabel ≠ .worker i action)
    (quiet : ∀ bundles, groupLabel ≠ .enqueueBulk bundles)
    (nothing : e.discarded s (s.stepAll groupLabel) label = []) (noTakes : e.bundled s label = []) :
    Balanced e s (s.stepAll groupLabel) label := by
  refine .dispatcher elsewhere (fun loan => ?_) (fun loan => (stepAll_loans dispatchers quiet loan).2)
  rw [nothing, noTakes, (stepAll_loans dispatchers quiet loan).1]
  rfl

/-- The dispatcher does not throw out of `update_prio`. -/
theorem systemStep_updatePrio (inv : SystemInv e handles s)
    (sole : ∀ tgid g, s.groups tgid = some g → g.SoleMutexThread)
    (stepped : e.systemStep s .updatePrio = some s') :
    ∃ tgid, s.stepGroup tgid .dispatcherUpdatePrio = some s' ∧ e.discarded s s' .updatePrio = [] := by
  simp only [ExecutorState.systemStep] at stepped
  split at stepped
  · rename_i tgid rest at_
    obtain ⟨s₁, moved, rfl⟩ := Option.map_eq_some_iff.1 stepped
    obtain ⟨g, g', here, groupStepped, rfl⟩ := stepGroup_cases moved
    obtain ⟨_, _, _, -, reached⟩ := (inv.groups tgid g here).reached
    have returns := WorkerGroup.dispatcherUpdatePrio_returns
      (fun n point inside => sole tgid g here (WorkerGroup.updating_isMutexGroup reached n point inside))
      groupStepped
    refine ⟨tgid, ?_⟩
    split
    · rename_i what threw
      change (Function.update s.groups tgid (some g') tgid).map WorkerGroup.dispatcher = _ at threw
      rw [Function.update_self, Option.map_some] at threw
      exact absurd (Option.some.inj threw) (returns what)
    · exact ⟨moved, by simp only [ExecutorState.discarded, RunningExecutor.unwound, at_]⟩
  · cases stepped

theorem systemStep_balanced (loaded : e.callbackHandleToThreadgroupId = some handles)
    (inv : SystemInv e handles s) (sole : ∀ tgid g, s.groups tgid = some g → g.SoleMutexThread)
    {label : SystemLabel} (stepped : e.systemStep s label = some s') : Balanced e s s' label := by
  cases label with
  | populate ready choices =>
      simp only [ExecutorState.systemStep] at stepped
      split at stepped
      · rename_i idle
        have nothing : ∀ loan, s.cycle.loansPending loan = 0 := fun loan => by rw [idle]; rfl
        split at stepped
        · rename_i nobody
          cases stepped
          have noTakes : e.bundled s (.populate ready choices) = [] := by
            simp [ExecutorState.bundled, ExecutorState.takesOf, idle, nobody]
          refine .dispatcher (by rintro _ _ _ ⟨⟩) (fun loan => ?_) (fun _ => rfl)
          rw [noTakes]
          simp only [ExecutorState.discarded, idle]
        · rename_i somebody
          have takes : e.bundled s (.populate ready choices) =
              (takesMade ready.subscriptions).flatMap ReadySubscription.taken := by
            simp only [ExecutorState.bundled, ExecutorState.takesOf, idle, if_neg somebody]
          split at stepped
          · cases stepped
            refine .cycle (by rintro _ _ _ ⟨⟩) fun loan => ?_
            rw [nothing]
            rfl
          · rename_i c collect
            cases stepped
            refine .cycle (by rintro _ _ _ ⟨⟩) fun loan => ?_
            simp only [ExecutorState.discarded, collect]
            rw [loaded] at collect
            rw [nothing, takes, takesMade_of_collected collect, ← loanCount_taken, Nat.zero_add]
            exact loans_collected choices collect
      · cases stepped
  | nextBatch enqueueOk =>
      simp only [ExecutorState.systemStep] at stepped
      split at stepped
      · rename_i at_
        cases stepped
        refine .cycle (by rintro _ _ _ ⟨⟩) fun loan => ?_
        rw [at_]
        rfl
      · rename_i tgid bundles rest at_
        have pending : ∀ loan, s.cycle.loansPending loan =
            loanCount loan bundles + loanCount loan (rest.flatMap Prod.snd) := fun loan => by
          rw [at_, ← loanCount_append]
          rfl
        split at stepped
        · rename_i empty
          cases stepped
          refine .cycle (by rintro _ _ _ ⟨⟩) fun loan => ?_
          rw [pending, List.isEmpty_iff.1 empty]
          show loanCount loan (rest.flatMap Prod.snd) + 0 = 0 + _ + 0
          omega
        · split at stepped
          · cases stepped; exact .unwinds
          · split at stepped
            · cases stepped; exact .unwinds
            · obtain ⟨s₁, moved, rfl⟩ := Option.map_eq_some_iff.1 stepped
              refine .handing inv (by rintro _ _ _ ⟨⟩) moved (by rintro _ _ ⟨⟩) fun loan => ?_
              rw [pending]
              rfl
      · cases stepped
  | fetchAdd =>
      simp only [ExecutorState.systemStep] at stepped
      split at stepped
      · exact .stays inv (by rintro _ _ _ ⟨⟩) stepped (by rintro _ _ ⟨⟩) rfl rfl rfl
      · cases stepped
  | updatePrio =>
      obtain ⟨tgid, moved, nothing⟩ := systemStep_updatePrio inv sole stepped
      exact .stays inv (by rintro _ _ _ ⟨⟩) moved (by rintro _ _ ⟨⟩) rfl nothing rfl
  | release =>
      simp only [ExecutorState.systemStep] at stepped
      split at stepped
      · rename_i tgid rest at_
        obtain ⟨s₁, moved, rfl⟩ := Option.map_eq_some_iff.1 stepped
        refine .handing inv (by rintro _ _ _ ⟨⟩) moved (by rintro _ _ ⟨⟩) fun loan => ?_
        rw [at_]
        show 0 + _ + 0 = _ + 0
        rw [Nat.zero_add]
        rfl
      · cases stepped
  | worker tgid i action => exact .worker inv stepped
  | setOk ok =>
      cases stepped
      exact .all (by rintro _ _ _ ⟨⟩) (by rintro _ _ ⟨⟩) (by rintro _ ⟨⟩) rfl rfl
  | setSpinning spinning =>
      cases stepped
      exact .all (by rintro _ _ _ ⟨⟩) (by rintro _ _ ⟨⟩) (by rintro _ ⟨⟩) rfl rfl
  | destroy tgid =>
      simp only [ExecutorState.systemStep] at stepped
      split at stepped
      · exact .stays inv (by rintro _ _ _ ⟨⟩) stepped (by rintro _ _ ⟨⟩) rfl rfl rfl
      · exact .stays inv (by rintro _ _ _ ⟨⟩) stepped (by rintro _ _ ⟨⟩) rfl rfl rfl
      · cases stepped

end Step

end PreemptiveExecutor
