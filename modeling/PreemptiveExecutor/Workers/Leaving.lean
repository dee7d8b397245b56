/-
# Workers.Leaving — a worker group that is told to stop comes to its end

Once `spinning` is false, the steps left are those of the threads and the one of the
destructor.  Each of them lowers `workToEnd`, and when the threads can make none after
the destructor, all of them have exited: the tokens that nobody has used are at least
as many as the threads that are still there (`Leaving.exited`).

No thread passes the check any more, so the bundles that will have been started are
those started before and those for which a thread was past the check (`willStart`);
the others stay in the queue, which goes with the group.
-/
import PreemptiveExecutor.Workers.Progress

namespace PreemptiveExecutor

open Theory

set_option autoImplicit false

variable {β : Type}

/-- Past the check of `ok` and `spinning`, and not yet inside `run`. -/
def Worker.isCommitted : Worker β → Bool
  | .dequeuing _ _ => true
  | .dequeued _ => true
  | _ => false

namespace WorkerGroup

/-- How many bundles will have been started when no thread passes the check any more. -/
def willStart (g : WorkerGroup β) : Nat := g.started.length + g.threads.countP Worker.isCommitted

/-- What is left to do, with the tokens of the destructor. -/
def workToEnd (g : WorkerGroup β) : Nat := g.work + if g.destroyed then 0 else 20 * g.threads.length + 1

/-- The steps of a group that has been told to stop. -/
def Label.Leaves : Label β → Prop
  | .worker _ _ => True
  | .destroy => True
  | _ => False

/-- A group that has been told to stop. -/
structure Leaving (g : WorkerGroup β) : Prop where
  covered : TokensCovered g
  balanced : Balanced g
  sole : g.isMutexGroup = true → g.threads.length = 1
  conserved : Conserved g
  spinning : g.spinning = false

/-- The destructor has joined all threads. -/
structure Gone (g : WorkerGroup β) : Prop where
  destroyed : g.destroyed = true
  exited : ∀ w ∈ g.threads, w = .exited
  bundles : (g.finished ++ g.queued).Perm g.enqueued

/-! ## Steps -/

/-- A step of a thread of a stopped group starts no bundle that it was not past the
check for. -/
theorem willStart_thread {g g' : WorkerGroup β} {i : Nat} {w w' : Worker β} (covered : TokensCovered g)
    (spinning : g.spinning = false) (at_ : g.threads[i]? = some w) (effect : ThreadEffect g w w' g') :
    (g'.setThread i w').willStart = g.willStart := by
  have threads := effect.frame.1
  have counts := ThreadPool.countP_set at_ w' Worker.isCommitted
  have valid : w.QueueValid := covered.threads w (List.mem_of_getElem? at_)
  have even : w'.isCommitted = w.isCommitted → g'.started = g.started →
      (g'.setThread i w').willStart = g.willStart := by
    intro same started
    rw [same] at counts
    simp only [willStart, setThread, threads, started]
    omega
  cases effect with
  | acquire token => exact even rfl rfl
  | exit stopped => exact even rfl rfl
  | pass ok goes =>
      rw [spinning] at goes
      cases goes
  | dequeue head => exact even rfl rfl
  | empty queue => exact absurd queue (covered.queue_ne_nil at_ rfl)
  | spuriousFailure few =>
      obtain ⟨rfl, le⟩ := valid
      rw [dequeueFailed_counts _ _ le] at even ⊢
      exact even rfl rfl
  | null => exact absurd rfl valid
  | start =>
      simp only [Worker.isCommitted, Bool.false_eq_true, ↓reduceIte] at counts
      simp only [willStart, setThread, List.length_append, List.length_singleton]
      omega
  | finish => exact even rfl rfl
  | fetchSub =>
      refine even ?_ rfl
      cases g.callUpdatePrio <;> rfl
  | @updatePrio point =>
      refine even ?_ (updatePrio_started g point)
      cases (g.updatePrio point).1 <;> rfl

/-- What has been started stays so. -/
theorem ThreadEffect.started_prefix {g g' : WorkerGroup β} {w w' : Worker β} (effect : ThreadEffect g w w' g') :
    g.started <+: g'.started := by
  cases effect with
  | start => exact List.prefix_append ..
  | @updatePrio point => rw [updatePrio_started]
  | _ => exact List.prefix_rfl

/-- **A step of a stopped group** keeps it stopped, starts nothing that no thread was past
the check for and leaves less to do. -/
theorem Leaving.step {g g' : WorkerGroup β} {label : Label β} (leaving : Leaving g) (leaves : label.Leaves)
    (stepped : g.step label = some g') :
    Leaving g' ∧ g'.willStart = g.willStart ∧ g.started <+: g'.started ∧ g'.enqueued = g.enqueued ∧
      g'.workToEnd < g.workToEnd := by
  have covered := tokensCovered_step leaving.covered (step_cases stepped)
  have balanced := balanced_step leaving.covered leaving.sole leaving.balanced (step_cases stepped)
  have conserved := conserved_step leaving.covered leaving.conserved (step_cases stepped)
  have enqueued := step_enqueued stepped
  cases label with
  | worker i action =>
      have internal : (Label.worker i action : Label β).Internal := trivial
      have less := step_work leaving.covered internal stepped
      obtain ⟨w, w', g₁, at_, -, effect, rfl⟩ := step_worker stepped
      have willStart := willStart_thread leaving.covered leaving.spinning at_ effect
      obtain ⟨threads, -, spinning, destroyed, -, -, isMutexGroup⟩ := effect.frame
      rw [List.append_nil] at enqueued
      refine ⟨⟨covered, balanced, fun mutex => ?_, conserved, spinning.trans leaving.spinning⟩, willStart,
        effect.started_prefix, enqueued, ?_⟩
      · rw [setThread, List.length_set, threads]
        exact leaving.sole (isMutexGroup ▸ mutex)
      · have same : (g₁.setThread i w').destroyed = g.destroyed := destroyed
        have many : (g₁.setThread i w').threads.length = g.threads.length := by
          rw [setThread, List.length_set, threads]
        rw [workToEnd, workToEnd, same, many]
        omega
  | destroy =>
      obtain ⟨⟨-, alive, -⟩, rfl⟩ := step_destroy stepped
      refine ⟨⟨covered, balanced, leaving.sole, conserved, leaving.spinning⟩, rfl, List.prefix_rfl, rfl, ?_⟩
      simp only [workToEnd, work, alive, Bool.false_eq_true, ↓reduceIte]
      omega
  | _ => cases leaves

/-! ## At rest -/

/-- **All threads are gone** when none can make a step after the destructor's tokens. -/
theorem Leaving.exited {g : WorkerGroup β} (leaving : Leaving g) (destroyed : g.destroyed = true)
    (rest : ∀ i action, g.step (.worker i action) = none) : ∀ w ∈ g.threads, w = .exited := by
  have only : ∀ w ∈ g.threads, w = .waiting ∨ w = .exited := by
    intro w member
    by_contra other
    obtain ⟨notWaiting, notExited⟩ := not_or.1 other
    obtain ⟨i, at_⟩ := List.getElem?_of_mem member
    obtain ⟨action, g', stepped⟩ := leaving.balanced.thread_steps leaving.covered at_ notWaiting notExited
    rw [rest] at stepped
    cases stepped
  have none_ : ∀ p : Worker β → Bool, p .waiting = false → p .exited = false → g.threads.countP p = 0 := by
    intro p notWaiting notExited
    refine List.countP_eq_zero.2 fun w member => ?_
    rcases only w member with rfl | rfl
    · rw [notWaiting]
      exact Bool.false_ne_true
    · rw [notExited]
      exact Bool.false_ne_true
  have idle : g.dispatcher = .idle := by
    have unthrown := leaving.balanced.dispatcher
    have stopped := (leaving.covered.dead destroyed).2
    cases at_ : g.dispatcher with
    | idle => rfl
    | threw what => rw [at_] at unthrown; cases unthrown
    | _ => rw [at_] at stopped; cases stopped
  intro w member
  rcases only w member with rfl | gone
  · -- its token is among those of the destructor that nobody has used
    obtain ⟨i, at_⟩ := List.getElem?_of_mem member
    have tokens := leaving.balanced.tokens
    rw [WorkerGroup.tokens, no_tokens at_ rest, none_ _ rfl rfl, none_ _ rfl rfl, idle, if_pos destroyed] at tokens
    have all : g.threads.countP Worker.isExited = g.threads.length := by
      have few := @List.countP_le_length _ Worker.isExited g.threads
      change 0 + 0 + 0 + 0 + _ = _ at tokens
      omega
    exact absurd (List.countP_eq_length.1 all _ member) Bool.false_ne_true
  · exact gone

theorem Leaving.gone {g : WorkerGroup β} (leaving : Leaving g) (destroyed : g.destroyed = true)
    (rest : ∀ i action, g.step (.worker i action) = none) :
    Gone g ∧ g.started.Perm g.finished ∧ g.finished.length = g.willStart := by
  have exited := leaving.exited destroyed rest
  have nobody : ∀ {γ : Type} (f : Worker β → Option γ), f .exited = none → g.threads.filterMap f = [] := by
    intro γ f none_
    refine List.filterMap_eq_nil_iff.2 fun w member => ?_
    rw [exited w member, none_]
  have runs := leaving.conserved.runs
  rw [nobody _ rfl, Multiset.coe_nil, zero_add] at runs
  have all : g.started.Perm g.finished := Multiset.coe_eq_coe.1 runs
  refine ⟨⟨destroyed, exited, ?_⟩, all, ?_⟩
  · have bundles := leaving.conserved.bundles
    rw [beingRun, nobody _ rfl] at bundles
    refine (Multiset.coe_eq_coe.1 ?_).symm
    rw [bundles, ← Multiset.coe_add, add_comm (g.finished : Multiset β)]
    simp
  · have none_ : g.threads.countP Worker.isCommitted = 0 := by
      refine List.countP_eq_zero.2 fun w member => ?_
      rw [exited w member]
      exact Bool.false_ne_true
    rw [willStart, none_]
    exact all.length_eq.symm

end WorkerGroup

end PreemptiveExecutor
