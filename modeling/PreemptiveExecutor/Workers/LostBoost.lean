/-
# Workers.LostBoost — the boost flag and the backlog

A call of `MutexGroup::update_prio` decides from the `num_pending` it has loaded,
and the other party may change the counter before the call stores the flag.  The
store then overwrites what the other party has found to be right, and nobody
looks again: a backlog is left to a worker at the group's own priority
(`boost_lost`).

The flag follows the backlog as long as no call stores a value that
`num_pending` contradicts by then, or the other party is still to settle it
(`NoStaleStore`, `boost_kept`).
-/
import PreemptiveExecutor.Workers.Boost

namespace PreemptiveExecutor

open Theory

set_option autoImplicit false

variable {β : Type}

/-- The call will find out what is right, or has decided for it: it has not
loaded `num_pending` yet, or has loaded a value on the right side of 1. -/
def UpdatePrio.upToDate (backlog : Bool) : UpdatePrio → Bool
  | .loadPending => true
  | .loadBoosted shouldBoost => shouldBoost = backlog
  | .setFifoPrio shouldBoost => shouldBoost = backlog
  | .storeBoosted shouldBoost => shouldBoost = backlog

namespace WorkerGroup

/-- `num_pending > 1`. -/
def backlog (g : WorkerGroup β) : Bool := 1 < g.numPending

/-- Whenever nobody is between a change of `num_pending` and the end of the
`update_prio` that follows it, the flag is set exactly if there is a backlog. -/
def BoostKept (g : WorkerGroup β) : Prop :=
  g.insideUpdatePrio = [] → (g.isBoosted = true ↔ 1 < g.numPending)

/-- The value a step stores in `is_boosted`. -/
def storesBoosted (g : WorkerGroup β) : Label β → Option Bool
  | .dispatcherUpdatePrio => g.dispatcher.updatePrio.bind UpdatePrio.storing
  | .worker i .updatePrio => ((g.threads[i]?).bind Worker.updatePrio).bind UpdatePrio.storing
  | _ => none

/-- The calls of `update_prio` of the parties other than the one that moves. -/
def othersInside (g : WorkerGroup β) : Label β → List UpdatePrio
  | .worker i _ => g.dispatcher.updatePrio.toList ++ (g.threads.eraseIdx i).filterMap Worker.updatePrio
  | _ => g.threads.filterMap Worker.updatePrio

/-- The step does not store a value that `num_pending` contradicts, unless
another call is still to settle the flag. -/
def NoStaleStore (g : WorkerGroup β) (label : Label β) : Prop :=
  ∀ shouldBoost, g.storesBoosted label = some shouldBoost →
    shouldBoost = g.backlog ∨ ∃ point ∈ g.othersInside label, point.upToDate g.backlog = true

instance (g : WorkerGroup β) (label : Label β) : Decidable (NoStaleStore g label) :=
  inferInstanceAs (Decidable (∀ _, _ → _))

/-! ## The invariant -/

/-- The flag is right, or a call that will put it right is under way. -/
structure BoostFollows (g : WorkerGroup β) : Prop where
  isMutexGroup : g.isMutexGroup = true
  single : g.threads.length = 1
  settled : g.isBoosted = g.backlog ∨ ∃ point ∈ g.insideUpdatePrio, point.upToDate g.backlog = true

/-- A step after which the same calls are under way as before. -/
theorem BoostFollows.unrelated {g g' : WorkerGroup β} (inv : BoostFollows g)
    (inside : ∀ point, point ∈ g'.insideUpdatePrio ↔ point ∈ g.insideUpdatePrio)
    (mutex : g'.isMutexGroup = g.isMutexGroup) (threads : g'.threads.length = g.threads.length)
    (pending : g'.numPending = g.numPending) (flag : g'.isBoosted = g.isBoosted) : BoostFollows g' := by
  have same : g'.backlog = g.backlog := by rw [backlog, pending, backlog]
  refine ⟨mutex.trans inv.isMutexGroup, threads.trans inv.single, ?_⟩
  rw [same, flag]
  rcases inv.settled with right | ⟨point, member, upToDate⟩
  · exact Or.inl right
  · exact Or.inr ⟨point, (inside point).2 member, upToDate⟩

/-- The call at `point` moves on; the calls of the other parties are `others`. -/
theorem BoostFollows.updatePrio {g g' : WorkerGroup β} {point : UpdatePrio} {after : Option UpdatePrio}
    (inv : BoostFollows g) (others : List UpdatePrio)
    (here : ∀ p, p ∈ g.insideUpdatePrio ↔ p = point ∨ p ∈ others)
    (there : ∀ p, p ∈ g'.insideUpdatePrio ↔ p ∈ after.toList ∨ p ∈ others)
    (result : ∀ next, (g.updatePrio point).1 = .inside next ↔ after = some next)
    (mutex : g'.isMutexGroup = g.isMutexGroup) (threads : g'.threads.length = g.threads.length)
    (pending : g'.numPending = g.numPending) (flag : g'.isBoosted = (g.updatePrio point).2.isBoosted)
    (fresh : ∀ b, point.storing = some b →
      b = g.backlog ∨ ∃ p ∈ others, p.upToDate g.backlog = true) : BoostFollows g' := by
  have same : g'.backlog = g.backlog := by rw [backlog, pending, backlog]
  refine ⟨mutex.trans inv.isMutexGroup, threads.trans inv.single, ?_⟩
  rw [same]
  -- a call that goes on with the same decision keeps its part of the invariant
  have goesOn : ∀ next, after = some next → next.upToDate g.backlog = point.upToDate g.backlog →
      g'.isBoosted = g.isBoosted →
      g'.isBoosted = g.backlog ∨ ∃ p ∈ g'.insideUpdatePrio, p.upToDate g.backlog = true := by
    intro next isNext decision kept
    rcases inv.settled with right | ⟨p, member, upToDate⟩
    · exact Or.inl (kept.trans right)
    · rcases (here p).1 member with rfl | other
      · exact Or.inr ⟨next, (there next).2 (Or.inl (by simp [isNext])), decision.trans upToDate⟩
      · exact Or.inr ⟨p, (there p).2 (Or.inr other), upToDate⟩
  cases point with
  | loadPending =>
      have next := (result (.loadBoosted g.backlog)).1 rfl
      exact goesOn _ next (by simp [UpdatePrio.upToDate]) flag
  | setFifoPrio shouldBoost =>
      have next := (result (.storeBoosted shouldBoost)).1 rfl
      exact goesOn _ next rfl flag
  | loadBoosted shouldBoost =>
      by_cases equal : shouldBoost = g.isBoosted
      · -- the call returns; if it was the one to settle the flag, the flag is right
        have unchanged : g'.isBoosted = g.isBoosted := by
          rw [flag, WorkerGroup.updatePrio, if_pos equal]
        rcases inv.settled with right | ⟨p, member, upToDate⟩
        · exact Or.inl (unchanged.trans right)
        · rcases (here p).1 member with rfl | other
          · refine Or.inl (unchanged.trans (equal.symm.trans ?_))
            simpa [UpdatePrio.upToDate] using upToDate
          · exact Or.inr ⟨p, (there p).2 (Or.inr other), upToDate⟩
      · have goes : g.updatePrio (.loadBoosted shouldBoost) = (.inside (.setFifoPrio shouldBoost), g) := by
          rw [WorkerGroup.updatePrio, if_neg equal, if_neg (by rw [inv.single]; decide)]
        have next := (result (.setFifoPrio shouldBoost)).1 (by rw [goes])
        exact goesOn _ next rfl (by rw [flag, goes])
  | storeBoosted shouldBoost =>
      have stored : g'.isBoosted = shouldBoost := flag
      rcases fresh shouldBoost rfl with right | ⟨p, other, upToDate⟩
      · exact Or.inl (stored.trans right)
      · exact Or.inr ⟨p, (there p).2 (Or.inr other), upToDate⟩

/-- A step that changes `num_pending` is followed by a call of `update_prio`. -/
theorem BoostFollows.calls {g' : WorkerGroup β} (mutex : g'.isMutexGroup = true)
    (single : g'.threads.length = 1) (called : .loadPending ∈ g'.insideUpdatePrio) : BoostFollows g' :=
  ⟨mutex, single, Or.inr ⟨.loadPending, called, rfl⟩⟩

/-! ## Runs -/

/-- The calls under way are that of thread `i` and those of the others. -/
theorem insideUpdatePrio_thread {g : WorkerGroup β} {i : Nat} {w : Worker β} (at_ : g.threads[i]? = some w)
    (action : WorkerAction) (point : UpdatePrio) :
    point ∈ g.insideUpdatePrio ↔
      point ∈ w.updatePrio.toList ∨ point ∈ g.othersInside (.worker i action) := by
  obtain ⟨before, after, split, -, erased⟩ := ThreadPool.exists_split at_
  rw [insideUpdatePrio, othersInside, List.mem_append, List.mem_append, erased, split,
    ThreadPool.mem_filterMap_split, or_left_comm]

/-- After a step of thread `i` the calls of the others are the same. -/
theorem insideUpdatePrio_setThread {g g' : WorkerGroup β} {i : Nat} {w : Worker β}
    (at_ : g.threads[i]? = some w) (w' : Worker β) (threads : g'.threads = g.threads)
    (dispatcher : g'.dispatcher = g.dispatcher) (action : WorkerAction) (point : UpdatePrio) :
    point ∈ (g'.setThread i w').insideUpdatePrio ↔
      point ∈ w'.updatePrio.toList ∨ point ∈ g.othersInside (.worker i action) := by
  obtain ⟨before, after, split, set_, erased⟩ := ThreadPool.exists_split at_
  rw [insideUpdatePrio, othersInside, List.mem_append, List.mem_append, erased, or_left_comm,
    ← ThreadPool.mem_filterMap_split]
  simp only [setThread, dispatcher, threads, set_]

theorem boostFollows_spawn (priority : Nat) :
    BoostFollows (spawn true priority 1 : WorkerGroup β) :=
  ⟨rfl, rfl, Or.inl rfl⟩

theorem boostFollows_worker {g g' : WorkerGroup β} {i : Nat} {w w' : Worker β} {action : WorkerAction}
    (inv : BoostFollows g) (at_ : g.threads[i]? = some w) (effect : ThreadEffect g w w' g')
    (fresh : ∀ point, w = .updating point → ∀ b, point.storing = some b →
      b = g.backlog ∨ ∃ p ∈ g.othersInside (.worker i action), p.upToDate g.backlog = true) :
    BoostFollows (g'.setThread i w') := by
  obtain ⟨threads, dispatcher, -, -, -, -, mutex⟩ := effect.frame
  have here := insideUpdatePrio_thread at_ action
  have there := insideUpdatePrio_setThread at_ w' threads dispatcher action
  have length : (g'.setThread i w').threads.length = g.threads.length := by
    rw [setThread, List.length_set, threads]
  -- a step outside `update_prio`
  have outside : w.updatePrio = none → w'.updatePrio = none → g'.numPending = g.numPending →
      g'.isBoosted = g.isBoosted → BoostFollows (g'.setThread i w') := by
    intro before after pending flag
    refine inv.unrelated (fun point => ?_) mutex length pending flag
    rw [here, there, before, after]
  cases effect with
  | fetchSub =>
      refine BoostFollows.calls (mutex.trans inv.isMutexGroup) (length.trans inv.single) ?_
      rw [there]
      apply Or.inl
      simp [callUpdatePrio, inv.isMutexGroup, workerAfter, Worker.updatePrio]
  | updatePrio =>
      rename_i point
      refine inv.updatePrio _ (fun p => ?_) there (workerAfter_updatePrio _) mutex length
        (updatePrio_numPending g point) rfl (fresh point rfl)
      rw [here]
      simp [Worker.updatePrio]
  | empty | spuriousFailure =>
      refine outside rfl ?_ rfl rfl
      unfold dequeueFailed
      split <;> rfl
  | _ => exact outside rfl rfl rfl rfl

theorem boostFollows_step {g g' : WorkerGroup β} {label : Label β} (inv : BoostFollows g)
    (fresh : NoStaleStore g label) (stepped : g.step label = some g') : BoostFollows g' := by
  cases label with
  | worker i action =>
      obtain ⟨w, w', g₁, at_, moved, effect, rfl⟩ := step_worker stepped
      refine boostFollows_worker inv at_ effect fun point isUpdating b stores => fresh b ?_
      subst isUpdating
      obtain rfl := workerStep_updating moved
      simpa [storesBoosted, at_, Worker.updatePrio] using stores
  | dispatcherUpdatePrio =>
      obtain ⟨n, point, at_, rfl⟩ := step_dispatcherUpdatePrio stepped
      have before : g.dispatcher.updatePrio = some point := by rw [at_]; rfl
      refine inv.updatePrio (g.threads.filterMap Worker.updatePrio) (fun p => ?_) (fun p => ?_)
        (dispatcherAfter_updatePrio n _) (updatePrio_isMutexGroup g point) (by simp)
        (updatePrio_numPending g point) rfl fun b stores => fresh b ?_
      · rw [insideUpdatePrio, List.mem_append, before]
        simp
      · rw [insideUpdatePrio, List.mem_append, updatePrio_threads]
      · simpa [storesBoosted, before] using stores
  | fetchAdd =>
      obtain ⟨n, -, rfl⟩ := step_fetchAdd stepped
      refine BoostFollows.calls inv.isMutexGroup inv.single ?_
      simp [insideUpdatePrio, callUpdatePrio, inv.isMutexGroup, dispatcherAfter, Dispatcher.updatePrio]
  | release =>
      obtain ⟨n, at_, rfl⟩ := step_release stepped
      exact inv.unrelated (fun _ => by simp [insideUpdatePrio, at_, Dispatcher.updatePrio]) rfl rfl rfl rfl
  | enqueueBulk bundles =>
      obtain ⟨guard, rfl⟩ := step_enqueueBulk stepped
      exact inv.unrelated (fun _ => by simp [insideUpdatePrio, guard.1, Dispatcher.updatePrio]) rfl rfl rfl rfl
  | setOk ok =>
      cases stepped
      exact ⟨inv.isMutexGroup, inv.single, inv.settled⟩
  | setSpinning spinning =>
      obtain ⟨-, rfl⟩ := step_setSpinning stepped
      exact ⟨inv.isMutexGroup, inv.single, inv.settled⟩
  | destroy =>
      obtain ⟨-, rfl⟩ := step_destroy stepped
      exact ⟨inv.isMutexGroup, inv.single, inv.settled⟩

/-- **No boost is lost** in a run of a mutex group in which no call of
`update_prio` stores a value that `num_pending` contradicts by then, unless
another call is still to settle the flag. -/
theorem boost_kept {priority : Nat} {g : WorkerGroup β}
    (reachable : (system β true priority 1).ReachableWhile NoStaleStore g) : g.BoostKept := by
  have inv : BoostFollows g := Transition.invariant BoostFollows
    (fun _ start => by rw [start]; exact boostFollows_spawn priority)
    (fun _ _ _ inv met stepped => boostFollows_step inv met stepped) reachable
  intro nobody
  rcases inv.settled with right | ⟨point, member, -⟩
  · rw [right, backlog, decide_eq_true_iff]
  · rw [nobody] at member
    cases member

/-- The worker stores a decision that the next batch has overtaken, and the dispatcher, which
is still to look at the flag, puts it right. -/
theorem boost_kept_overlapping :
    ∃ overlap g : WorkerGroup Nat,
      (system Nat true 5 1).runWhile NoStaleStore (spawn true 5 1) overlappingRun = some overlap ∧
      overlap.insideUpdatePrio = [.loadBoosted true, .setFifoPrio false] ∧ overlap.numPending = 2 ∧
      (system Nat true 5 1).runWhile NoStaleStore overlap settlingRun = some g ∧
      g.insideUpdatePrio = [] ∧ g.numPending = 2 ∧ g.BoostKept := by
  have values : ((system Nat true 5 1).runWhile NoStaleStore (spawn true 5 1) overlappingRun).bind
      (fun overlap => ((system Nat true 5 1).runWhile NoStaleStore overlap settlingRun).map fun g =>
        (overlap.insideUpdatePrio, overlap.numPending, g.insideUpdatePrio, g.numPending)) =
      some ([.loadBoosted true, .setFifoPrio false], 2, [], 2) := by decide
  obtain ⟨overlap, ran, values⟩ := Option.bind_eq_some_iff.1 values
  obtain ⟨g, settled, values⟩ := Option.map_eq_some_iff.1 values
  simp only [Prod.mk.injEq] at values
  obtain ⟨both, two, nobody, stillTwo⟩ := values
  exact ⟨overlap, g, ran, both, two, settled, nobody, stillTwo,
    boost_kept (Transition.reachableWhile_run (Transition.reachableWhile_run (.init rfl) ran) settled)⟩

/-! ## A run in which a boost is lost -/

def losingRun : List (Label Nat) :=
  List.flatten
    [[.enqueueBulk [1, 2], .fetchAdd], dispatcherUpdates 4, [.release],
      -- one left: the worker decides to unboost, and sets the priority
      runOne, workerUpdates 3,
      -- two again: the dispatcher finds the flag still true and returns
      [.enqueueBulk [3], .fetchAdd], dispatcherUpdates 2, [.release],
      -- the worker stores what it decided
      workerUpdates 1]

/-- A boost can be lost: two bundles are pending, nobody is inside `update_prio`,
and the flag is false. -/
theorem boost_lost :
    ∃ g : WorkerGroup Nat, (system Nat true 5 1).Reachable g ∧ g.insideUpdatePrio = [] ∧
      g.numPending = 2 ∧ g.isBoosted = false ∧ g.threadPriority = 5 ∧ ¬ g.BoostKept := by
  have values : ((system Nat true 5 1).run (spawn true 5 1) losingRun).map
      (fun g => (g.insideUpdatePrio, g.numPending, g.isBoosted, g.threadPriority)) =
        some ([], 2, false, 5) := by decide
  obtain ⟨g, ran, values⟩ := Option.map_eq_some_iff.1 values
  simp only [Prod.mk.injEq] at values
  obtain ⟨nobody, two, unboosted, low⟩ := values
  refine ⟨g, Transition.reachableWhile_run (.init rfl) ran, nobody, two, unboosted, low, fun kept => ?_⟩
  have boosted := (kept nobody).2 (by rw [two]; decide)
  rw [unboosted] at boosted
  cases boosted

end WorkerGroup

end PreemptiveExecutor
