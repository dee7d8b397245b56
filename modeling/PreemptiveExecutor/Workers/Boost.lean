/-
# Workers.Boost — the boost flag and the priority of the worker thread

`MutexGroup::update_prio` is run by the dispatcher and by the worker without a
lock: each loads `num_pending` and `is_boosted`, then sets the priority, then
stores the flag.  Two calls that decided opposite ways can set and store in
opposite orders, and then the flag and the priority disagree for good
(`boostFlag_lies`).

They agree as long as no call sets the priority for one decision while the other
party has set it for the opposite one and has not stored the flag yet
(`NoCrossing`, `boostFlag_truthful`).
-/
import PreemptiveExecutor.Workers.Steps

namespace PreemptiveExecutor

open Theory

set_option autoImplicit false

variable {β : Type}

/-- The value a call has set the priority for and not stored yet. -/
def UpdatePrio.storing : UpdatePrio → Option Bool
  | .storeBoosted shouldBoost => some shouldBoost
  | _ => none

/-- The value a call is about to set the priority for. -/
def UpdatePrio.setting : UpdatePrio → Option Bool
  | .setFifoPrio shouldBoost => some shouldBoost
  | _ => none

def Worker.updatePrio : Worker β → Option UpdatePrio
  | .updating point => some point
  | _ => none

def Dispatcher.updatePrio : Dispatcher → Option UpdatePrio
  | .updating _ point => some point
  | _ => none

namespace WorkerGroup

/-- The calls of `update_prio` that have not returned. -/
def insideUpdatePrio (g : WorkerGroup β) : List UpdatePrio :=
  g.dispatcher.updatePrio.toList ++ g.threads.filterMap Worker.updatePrio

/-- The priority the flag speaks of. -/
def flagPriority (g : WorkerGroup β) (boosted : Bool) : Nat :=
  if boosted then maxFifoPrio else g.priority

/-- Whenever nobody is inside `update_prio`, the flag tells the priority. -/
def FlagTruthful (g : WorkerGroup β) : Prop :=
  g.insideUpdatePrio = [] → g.threadPriority = g.flagPriority g.isBoosted

/-- The value a step sets the priority for, if it is a `set_fifo_prio`. -/
def setsFifoPrio (g : WorkerGroup β) : Label β → Option Bool
  | .dispatcherUpdatePrio => g.dispatcher.updatePrio.bind UpdatePrio.setting
  | .worker i .updatePrio => ((g.threads[i]?).bind Worker.updatePrio).bind UpdatePrio.setting
  | _ => none

/-- The step does not set the priority for one decision while the other party is
between its own `set_fifo_prio` and `store` for the opposite one. -/
def NoCrossing (g : WorkerGroup β) (label : Label β) : Prop :=
  ∀ shouldBoost, g.setsFifoPrio label = some shouldBoost →
    .storeBoosted (!shouldBoost) ∉ g.insideUpdatePrio

instance (g : WorkerGroup β) (label : Label β) : Decidable (NoCrossing g label) :=
  inferInstanceAs (Decidable (∀ _, _ → _))

/-! ## The invariant -/

/-- A priority that was set and whose flag is not stored yet is the current one;
without such a call, the flag tells the priority. -/
structure FlagFollows (g : WorkerGroup β) : Prop where
  pending : ∀ shouldBoost, .storeBoosted shouldBoost ∈ g.insideUpdatePrio →
    g.threadPriority = g.flagPriority shouldBoost
  agree : ∀ a b, .storeBoosted a ∈ g.insideUpdatePrio → .storeBoosted b ∈ g.insideUpdatePrio → a = b
  settled : (∀ shouldBoost, .storeBoosted shouldBoost ∉ g.insideUpdatePrio) →
    g.threadPriority = g.flagPriority g.isBoosted

/-- One party of the group goes from `before` to `after` inside `update_prio`;
the others are at `others`. -/
structure PartyMoves (g g' : WorkerGroup β) (before after : Option UpdatePrio) : Prop where
  split : ∃ others : List UpdatePrio,
    (∀ point, point ∈ g.insideUpdatePrio ↔ point ∈ before.toList ∨ point ∈ others) ∧
      ∀ point, point ∈ g'.insideUpdatePrio ↔ point ∈ after.toList ∨ point ∈ others
  priority : g'.priority = g.priority

/-- A step that neither sets the priority nor stores the flag. -/
theorem FlagFollows.unrelated {g g' : WorkerGroup β} {before after : Option UpdatePrio}
    (inv : FlagFollows g) (moves : PartyMoves g g' before after)
    (before_ : ∀ b, before ≠ some (.storeBoosted b)) (after_ : ∀ b, after ≠ some (.storeBoosted b))
    (prio : g'.threadPriority = g.threadPriority) (flag : g'.isBoosted = g.isBoosted) :
    FlagFollows g' := by
  obtain ⟨⟨others, here, there⟩, own⟩ := moves
  have same : ∀ b, .storeBoosted b ∈ g'.insideUpdatePrio ↔ .storeBoosted b ∈ g.insideUpdatePrio := by
    intro b
    rw [here, there]
    simp [before_ b, after_ b]
  have levels : ∀ b, g'.flagPriority b = g.flagPriority b := fun b => by rw [flagPriority, own, flagPriority]
  refine ⟨fun b member => ?_, fun a b ha hb => ?_, fun none_ => ?_⟩
  · rw [prio, levels]
    exact inv.pending b ((same b).1 member)
  · exact inv.agree a b ((same a).1 ha) ((same b).1 hb)
  · rw [prio, levels, flag]
    exact inv.settled fun b member => none_ b ((same b).2 member)

/-- The call at `point` moves on, and crosses nobody. -/
theorem FlagFollows.updatePrio {g g' : WorkerGroup β} {point : UpdatePrio} {after : Option UpdatePrio}
    (inv : FlagFollows g) (moves : PartyMoves g g' (some point) after)
    (result : ∀ next, (g.updatePrio point).1 = .inside next ↔ after = some next)
    (prio : g'.threadPriority = (g.updatePrio point).2.threadPriority)
    (flag : g'.isBoosted = (g.updatePrio point).2.isBoosted)
    (clear : ∀ b, point.setting = some b → .storeBoosted (!b) ∉ g.insideUpdatePrio) : FlagFollows g' := by
  cases point with
  | loadPending =>
      have next : after = some (.loadBoosted (1 < g.numPending)) := (result _).1 rfl
      subst next
      exact inv.unrelated moves (by simp) (by simp) prio flag
  | loadBoosted shouldBoost =>
      refine inv.unrelated moves (by simp) (fun b store => ?_) ?_ ?_
      · have := (result _).2 store
        simp only [WorkerGroup.updatePrio] at this
        split at this
        · cases this
        · split at this <;> cases this
      · rw [prio, WorkerGroup.updatePrio]; split <;> [rfl; (split <;> rfl)]
      · rw [flag, WorkerGroup.updatePrio]; split <;> [rfl; (split <;> rfl)]
  | setFifoPrio shouldBoost =>
      have next : after = some (.storeBoosted shouldBoost) := (result _).1 rfl
      subst next
      obtain ⟨⟨others, here, there⟩, own⟩ := moves
      -- whoever else is about to store has decided the same
      have same : ∀ b, .storeBoosted b ∈ g'.insideUpdatePrio → b = shouldBoost := by
        intro b member
        rw [there] at member
        rcases member with mine | other
        · simpa using mine
        · have free := clear shouldBoost rfl
          rw [here] at free
          by_contra differs
          exact free (Or.inr (by rwa [Bool.eq_not.2 differs] at other))
      have set_ : g'.threadPriority = g'.flagPriority shouldBoost := by rw [prio, flagPriority, own]; rfl
      refine ⟨fun b member => ?_, fun a b ha hb => ?_, fun none_ => ?_⟩
      · rw [same b member, set_]
      · rw [same a ha, same b hb]
      · exact absurd ((there _).2 (Or.inl (by simp))) (none_ shouldBoost)
  | storeBoosted shouldBoost =>
      have done : after = none := by
        cases after with
        | none => rfl
        | some next => cases (result next).2 rfl
      subst done
      obtain ⟨⟨others, here, there⟩, own⟩ := moves
      have mine : .storeBoosted shouldBoost ∈ g.insideUpdatePrio := (here _).2 (Or.inl (by simp))
      have kept : ∀ b, .storeBoosted b ∈ g'.insideUpdatePrio → .storeBoosted b ∈ g.insideUpdatePrio := by
        intro b member
        rw [there] at member
        exact (here _).2 (Or.inr (by simpa using member))
      have levels : ∀ b, g'.flagPriority b = g.flagPriority b := fun b => by
        rw [flagPriority, own, flagPriority]
      have set_ : g'.threadPriority = g.flagPriority shouldBoost := prio.trans (inv.pending _ mine)
      refine ⟨fun b member => ?_, fun a b ha hb => inv.agree a b (kept a ha) (kept b hb), fun _ => ?_⟩
      · rw [set_, levels, inv.agree b shouldBoost (kept b member) mine]
      · rw [set_, levels, flag]
        rfl

/-! ## Runs -/

theorem workerAfter_updatePrio (result : UpdatePrioResult) (next : UpdatePrio) :
    result = .inside next ↔ (workerAfter result : Worker β).updatePrio = some next := by
  cases result <;> simp [workerAfter, Worker.updatePrio]

theorem dispatcherAfter_updatePrio (n : Nat) (result : UpdatePrioResult) (next : UpdatePrio) :
    result = .inside next ↔ (dispatcherAfter n result).updatePrio = some next := by
  cases result <;> simp [dispatcherAfter, Dispatcher.updatePrio]

/-- A step of thread `i` is a move of that party. -/
theorem partyMoves_thread {g g' : WorkerGroup β} {i : Nat} {w : Worker β} (at_ : g.threads[i]? = some w)
    (w' : Worker β) (threads : g'.threads = g.threads) (dispatcher : g'.dispatcher = g.dispatcher)
    (priority : g'.priority = g.priority) :
    PartyMoves g (g'.setThread i w') w.updatePrio w'.updatePrio := by
  obtain ⟨before, after, split, set_, -⟩ := ThreadPool.exists_split at_
  refine ⟨⟨g.dispatcher.updatePrio.toList ++ (before ++ after).filterMap Worker.updatePrio, ?_, ?_⟩, priority⟩
  · intro point
    rw [insideUpdatePrio, split, List.mem_append, ThreadPool.mem_filterMap_split, List.mem_append,
      or_left_comm]
  · intro point
    simp only [insideUpdatePrio, setThread, dispatcher, threads, set_]
    rw [List.mem_append, ThreadPool.mem_filterMap_split, List.mem_append, or_left_comm]

/-- A step of the dispatcher is a move of that party. -/
theorem partyMoves_dispatcher (g g' : WorkerGroup β) (threads : g'.threads = g.threads)
    (priority : g'.priority = g.priority) :
    PartyMoves g g' g.dispatcher.updatePrio g'.dispatcher.updatePrio :=
  ⟨⟨g.threads.filterMap Worker.updatePrio, fun _ => by rw [insideUpdatePrio, List.mem_append],
    fun _ => by rw [insideUpdatePrio, List.mem_append, threads]⟩, priority⟩

theorem flagFollows_spawn (isMutexGroup : Bool) (priority numberOfThreads : Nat) :
    FlagFollows (spawn isMutexGroup priority numberOfThreads : WorkerGroup β) := by
  have nobody : (spawn isMutexGroup priority numberOfThreads : WorkerGroup β).insideUpdatePrio = [] := by
    simp [spawn, insideUpdatePrio, Dispatcher.updatePrio, Worker.updatePrio, List.filterMap_replicate]
  refine ⟨fun b member => ?_, fun a b member => ?_, fun _ => rfl⟩
  · rw [nobody] at member; cases member
  · rw [nobody] at member; cases member

theorem callUpdatePrio_storing (g : WorkerGroup β) :
    (∀ b, (workerAfter g.callUpdatePrio : Worker β).updatePrio ≠ some (.storeBoosted b)) ∧
      ∀ n b, (dispatcherAfter n g.callUpdatePrio).updatePrio ≠ some (.storeBoosted b) := by
  unfold callUpdatePrio
  split <;> simp [workerAfter, dispatcherAfter, Worker.updatePrio, Dispatcher.updatePrio]

theorem flagFollows_step {g g' : WorkerGroup β} {label : Label β} (inv : FlagFollows g)
    (clear : NoCrossing g label) (stepped : g.step label = some g') : FlagFollows g' := by
  cases label with
  | worker i action =>
      obtain ⟨w, w', g₁, at_, moved, effect, rfl⟩ := step_worker stepped
      have moves := partyMoves_thread at_ w' effect.frame.1 effect.frame.2.1 effect.frame.2.2.2.2.2.1
      cases effect with
      | @updatePrio point =>
          obtain rfl := workerStep_updating moved
          refine inv.updatePrio moves (workerAfter_updatePrio _) rfl rfl fun b sets => clear b ?_
          simpa [setsFifoPrio, at_, Worker.updatePrio] using sets
      | fetchSub =>
          exact inv.unrelated moves (by simp [Worker.updatePrio]) g.callUpdatePrio_storing.1 rfl rfl
      | empty | spuriousFailure =>
          refine inv.unrelated moves (by simp [Worker.updatePrio]) (fun b => ?_) rfl rfl
          unfold dequeueFailed
          split <;> simp [Worker.updatePrio]
      | _ => exact inv.unrelated moves (by simp [Worker.updatePrio]) (by simp [Worker.updatePrio]) rfl rfl
  | dispatcherUpdatePrio =>
      obtain ⟨n, point, at_, rfl⟩ := step_dispatcherUpdatePrio stepped
      have moves := partyMoves_dispatcher g
        { (g.updatePrio point).2 with dispatcher := dispatcherAfter n (g.updatePrio point).1 }
        (by simp) (by simp)
      have before : g.dispatcher.updatePrio = some point := by rw [at_]; rfl
      rw [before] at moves
      refine inv.updatePrio moves (dispatcherAfter_updatePrio n _) rfl rfl fun b sets => clear b ?_
      simpa [setsFifoPrio, before] using sets
  | fetchAdd =>
      obtain ⟨n, at_, rfl⟩ := step_fetchAdd stepped
      refine inv.unrelated (partyMoves_dispatcher _ _ rfl rfl) ?_ (g.callUpdatePrio_storing.2 n) rfl rfl
      simp [at_, Dispatcher.updatePrio]
  | release =>
      obtain ⟨n, at_, rfl⟩ := step_release stepped
      exact inv.unrelated (partyMoves_dispatcher _ _ rfl rfl) (by simp [at_, Dispatcher.updatePrio])
        (by simp [Dispatcher.updatePrio]) rfl rfl
  | enqueueBulk bundles =>
      obtain ⟨guard, rfl⟩ := step_enqueueBulk stepped
      exact inv.unrelated (partyMoves_dispatcher _ _ rfl rfl) (by simp [guard.1, Dispatcher.updatePrio])
        (by simp [Dispatcher.updatePrio]) rfl rfl
  | setOk ok =>
      cases stepped
      exact ⟨inv.pending, inv.agree, inv.settled⟩
  | setSpinning spinning =>
      obtain ⟨-, rfl⟩ := step_setSpinning stepped
      exact ⟨inv.pending, inv.agree, inv.settled⟩
  | destroy =>
      obtain ⟨-, rfl⟩ := step_destroy stepped
      exact ⟨inv.pending, inv.agree, inv.settled⟩

/-- **The boost flag tells the priority** in every state of a run of a mutex
group in which no `set_fifo_prio` crosses the opposite decision of the other
party. -/
theorem boostFlag_truthful {priority : Nat} {g : WorkerGroup β}
    (reachable : (system β true priority 1).ReachableWhile NoCrossing g) : g.FlagTruthful := by
  have inv : FlagFollows g := Transition.invariant FlagFollows
    (fun _ start => by rw [start]; exact flagFollows_spawn true priority 1)
    (fun _ _ _ inv met stepped => flagFollows_step inv met stepped) reachable
  intro nobody
  exact inv.settled fun b member => by rw [nobody] at member; cases member

/-! ## Two runs with both calls under way -/

/-- Thread 0 takes a bundle, runs it and subtracts it. -/
def runOne : List (Label Nat) :=
  [.worker 0 .acquire, .worker 0 .check, .worker 0 .tryDequeue, .worker 0 .startRun,
    .worker 0 .finishRun, .worker 0 .fetchSub]

def workerUpdates (n : Nat) : List (Label Nat) := List.replicate n (.worker 0 .updatePrio)

def dispatcherUpdates (n : Nat) : List (Label Nat) := List.replicate n .dispatcherUpdatePrio

/-- One of two bundles is left and the worker has decided to unboost; the next batch comes,
and the dispatcher has decided to boost. -/
def overlappingRun : List (Label Nat) :=
  List.flatten
    [[.enqueueBulk [1, 2], .fetchAdd], dispatcherUpdates 4, [.release], runOne, workerUpdates 2,
      [.enqueueBulk [3], .fetchAdd], dispatcherUpdates 1]

/-- The worker sets and stores what it has decided, then the dispatcher does. -/
def settlingRun : List (Label Nat) :=
  List.flatten [workerUpdates 2, dispatcherUpdates 3, [.release]]

theorem boostFlag_truthful_overlapping :
    ∃ overlap g : WorkerGroup Nat,
      (system Nat true 5 1).runWhile NoCrossing (spawn true 5 1) overlappingRun = some overlap ∧
      overlap.insideUpdatePrio = [.loadBoosted true, .setFifoPrio false] ∧
      (system Nat true 5 1).runWhile NoCrossing overlap settlingRun = some g ∧
      g.insideUpdatePrio = [] ∧ g.isBoosted = true ∧ g.threadPriority = 99 ∧ g.FlagTruthful := by
  have values : ((system Nat true 5 1).runWhile NoCrossing (spawn true 5 1) overlappingRun).bind
      (fun overlap => ((system Nat true 5 1).runWhile NoCrossing overlap settlingRun).map fun g =>
        (overlap.insideUpdatePrio, g.insideUpdatePrio, g.isBoosted, g.threadPriority)) =
      some ([.loadBoosted true, .setFifoPrio false], [], true, 99) := by decide
  obtain ⟨overlap, ran, values⟩ := Option.bind_eq_some_iff.1 values
  obtain ⟨g, settled, values⟩ := Option.map_eq_some_iff.1 values
  simp only [Prod.mk.injEq] at values
  obtain ⟨both, nobody, boosted, high⟩ := values
  exact ⟨overlap, g, ran, both, settled, nobody, boosted, high,
    boostFlag_truthful (Transition.reachableWhile_run (Transition.reachableWhile_run (.init rfl) ran) settled)⟩

def lyingRun : List (Label Nat) :=
  List.flatten
    [[.enqueueBulk [1, 2], .fetchAdd], dispatcherUpdates 4, [.release],
      -- one left: the worker decides to unboost, and is overtaken by the next batch
      runOne, workerUpdates 2,
      [.enqueueBulk [3], .fetchAdd], dispatcherUpdates 2, [.release],
      workerUpdates 2,
      -- the flag is false with two pending: the dispatcher decides to boost
      [.enqueueBulk [4], .fetchAdd], dispatcherUpdates 2,
      -- the worker boosts, runs down to one and decides to unboost
      runOne, workerUpdates 4, runOne, workerUpdates 2,
      -- the stores come in the opposite order of the settings
      dispatcherUpdates 1, workerUpdates 2, dispatcherUpdates 1, [.release]]

/-- The flag can lie: it is true, nobody is inside `update_prio`, and the worker
runs at the group's own priority. -/
theorem boostFlag_lies :
    ∃ g : WorkerGroup Nat, (system Nat true 5 1).Reachable g ∧ g.insideUpdatePrio = [] ∧
      g.isBoosted = true ∧ g.threadPriority = 5 ∧ ¬ g.FlagTruthful := by
  have values : ((system Nat true 5 1).run (spawn true 5 1) lyingRun).map
      (fun g => (g.insideUpdatePrio, g.isBoosted, g.threadPriority)) = some ([], true, 5) := by decide
  obtain ⟨g, ran, values⟩ := Option.map_eq_some_iff.1 values
  simp only [Prod.mk.injEq] at values
  obtain ⟨nobody, boosted, low⟩ := values
  refine ⟨g, Transition.reachableWhile_run (.init rfl) ran, nobody, boosted, low, fun truthful => ?_⟩
  have := truthful nobody
  rw [boosted, low] at this
  simp [flagPriority, maxFifoPrio] at this

end WorkerGroup

end PreemptiveExecutor
