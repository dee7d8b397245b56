/-
# Executor.AtOnce — a call of `populate_ready_queues` that nothing interrupts

The call is modelled twice: at once, on the worker map (`populateReadyQueues`), and step
by step beside the workers (`ExecutorState.systemStep`).  Where no worker makes a step in
between, the two agree: the steps of the dispatcher (`DispatcherStep`) lead from any
state between two calls to one end of the call and to no other, and there the worker
groups, and the exception if there is one, are those of `populateReadyQueues`
(`call_atOnce`).
-/
import PreemptiveExecutor.Executor.Exceptions

namespace PreemptiveExecutor

open Theory Relation

set_option autoImplicit false

/-! ## The dispatcher alone -/

/-- A step of the dispatch loop, with the choices of the call. -/
inductive DispatcherStep (e : ExecutorState) (choices : DispatchChoices) (s s' : RunningExecutor) : Prop where
  | nextBatch (enqueueOk : Bool)
      (chosen : ∀ tgid bundles rest, s.cycle = .dispatching ((tgid, bundles) :: rest) →
        enqueueOk = choices.enqueueOk tgid)
      (stepped : e.systemStep s (.nextBatch enqueueOk) = some s')
  | fetchAdd (stepped : e.systemStep s .fetchAdd = some s')
  | updatePrio (stepped : e.systemStep s .updatePrio = some s')
  | release (stepped : e.systemStep s .release = some s')

/-- A call of `populate_ready_queues` from its beginning to its end. -/
def ExecutorState.Calls (e : ExecutorState) (ready : ReadyHandles) (choices : DispatchChoices)
    (s s' : RunningExecutor) : Prop :=
  ∃ s₁, e.systemStep s (.populate ready choices) = some s₁ ∧
    ReflTransGen (DispatcherStep e choices) s₁ s' ∧ (s'.cycle = .idle ∨ s'.cycle.Threw)

/-- The executor after a call that has ended in this way. -/
def RunningExecutor.EndsAs (s : RunningExecutor) : Except (Error × Workers) (Collected × Workers) → Prop
  | .ok (_, workers) => s.cycle = .idle ∧ ∀ tgid, s.groups tgid = workers.lookup tgid
  | .error (error, workers) => s.cycle = .threw error ∧ ∀ tgid, s.groups tgid = workers.lookup tgid

theorem RunningExecutor.EndsAs.outside {s : RunningExecutor} {ended : Except (Error × Workers) (Collected × Workers)}
    (ends : s.EndsAs ended) : s.cycle = .idle ∨ s.cycle.Threw := by
  cases ended with
  | ok returned => exact Or.inl ends.1
  | error failed => exact Or.inr ⟨failed.1, ends.1⟩

/-- The dispatcher's next step. -/
def RunningExecutor.dispatcherLabel (s : RunningExecutor) (choices : DispatchChoices) : SystemLabel :=
  match s.cycle with
  | .dispatching ((tgid, _) :: _) => .nextBatch (choices.enqueueOk tgid)
  | .handing tgid _ =>
      match (s.groups tgid).map WorkerGroup.dispatcher with
      | some (.enqueued _) => .fetchAdd
      | some (.updating _ _) => .updatePrio
      | _ => .release
  | _ => .nextBatch true

section Alone

variable {e : ExecutorState} {choices : DispatchChoices} {s s₁ s₂ : RunningExecutor}

/-- **The dispatcher has one way to go on.** -/
theorem DispatcherStep.labelled (stepped : DispatcherStep e choices s s₁) :
    e.systemStep s (s.dispatcherLabel choices) = some s₁ := by
  cases stepped with
  | nextBatch enqueueOk chosen stepped =>
      have isLabel : ∀ {tgid bundles rest}, s.cycle = .dispatching ((tgid, bundles) :: rest) →
          s.dispatcherLabel choices = .nextBatch enqueueOk := by
        intro tgid bundles rest at_
        simp only [RunningExecutor.dispatcherLabel, at_, chosen tgid bundles rest at_]
      cases systemStep_performs stepped with
      | drained at_ =>
          have isLast : s.dispatcherLabel choices = .nextBatch true := by
            simp only [RunningExecutor.dispatcherLabel, at_]
          rw [isLast]
          exact ExecutorState.Performs.systemStep (.drained at_)
      | skipped at_ => rw [isLabel at_]; exact stepped
      | unknown at_ => rw [isLabel at_]; exact stepped
      | outOfMemory at_ => rw [isLabel at_]; exact stepped
      | handed at_ => rw [isLabel at_]; exact stepped
  | fetchAdd stepped =>
      cases systemStep_performs stepped with
      | fetchAdd at_ found moves =>
          obtain ⟨n, isEnqueued, -⟩ := WorkerGroup.step_fetchAdd moves
          have isLabel : s.dispatcherLabel choices = .fetchAdd := by
            simp only [RunningExecutor.dispatcherLabel, at_, found, Option.map_some, isEnqueued]
          rw [isLabel]
          exact stepped
  | updatePrio stepped =>
      have isLabel : ∀ {tgid rest} {g g' : WorkerGroup BundledExecutable}, s.cycle = .handing tgid rest →
          s.groups tgid = some g → g.step .dispatcherUpdatePrio = some g' →
            s.dispatcherLabel choices = .updatePrio := by
        intro tgid rest g g' at_ found moves
        obtain ⟨n, point, isUpdating, -⟩ := WorkerGroup.step_dispatcherUpdatePrio moves
        simp only [RunningExecutor.dispatcherLabel, at_, found, Option.map_some, isUpdating]
      cases systemStep_performs stepped with
      | updatePrio at_ found moves => rw [isLabel at_ found moves]; exact stepped
      | updatePrioThrew at_ found moves => rw [isLabel at_ found moves]; exact stepped
  | release stepped =>
      cases systemStep_performs stepped with
      | release at_ found moves =>
          obtain ⟨n, isReleasing, -⟩ := WorkerGroup.step_release moves
          have isLabel : s.dispatcherLabel choices = .release := by
            simp only [RunningExecutor.dispatcherLabel, at_, found, Option.map_some, isReleasing]
          rw [isLabel]
          exact stepped

theorem DispatcherStep.unique (stepped : DispatcherStep e choices s s₁)
    (stepped' : DispatcherStep e choices s s₂) : s₁ = s₂ :=
  Option.some.inj (stepped.labelled.symm.trans stepped'.labelled)

/-- Outside the dispatch loop there is no step. -/
theorem DispatcherStep.inside (stepped : DispatcherStep e choices s s₁) :
    ¬ (s.cycle = .idle ∨ s.cycle.Threw) := by
  have moved := stepped.labelled
  rintro (idle | ⟨error, threw⟩)
  · simp only [RunningExecutor.dispatcherLabel, ExecutorState.systemStep, idle] at moved
    cases moved
  · simp only [RunningExecutor.dispatcherLabel, ExecutorState.systemStep, threw] at moved
    cases moved

/-- A call has one end. -/
theorem ExecutorState.Calls.unique {ready : ReadyHandles} (calls : e.Calls ready choices s s₁)
    (calls' : e.Calls ready choices s s₂) : s₂ = s₁ := by
  obtain ⟨begun, populated, run, ended⟩ := calls
  obtain ⟨begun', populated', run', ended'⟩ := calls'
  obtain rfl := Option.some.inj (populated.symm.trans populated')
  have unique : Relator.RightUnique (DispatcherStep e choices) := fun _ _ _ => DispatcherStep.unique
  rcases run.total_of_right_unique unique run' with later | later
  · rcases later.cases_head with same | ⟨next, stepped, -⟩
    · exact same.symm
    · exact absurd ended stepped.inside
  · rcases later.cases_head with same | ⟨next, stepped, -⟩
    · exact same
    · exact absurd ended' stepped.inside

end Alone

/-! ## One batch -/

/-- A worker group whose queue has just received a batch. -/
def WorkerGroup.handed (g : WorkerGroup BundledExecutable) (bundles : List BundledExecutable) :
    WorkerGroup BundledExecutable :=
  { g with
    queue := g.queue ++ bundles.map some
    enqueued := g.enqueued ++ bundles
    dispatcher := .enqueued bundles.length }

/-- A worker group that has been handed a batch, before the dispatcher calls `update_prio`. -/
def WorkerGroup.received (g : WorkerGroup BundledExecutable) (bundles : List BundledExecutable) :
    WorkerGroup BundledExecutable :=
  { g with
    queue := g.queue ++ bundles.map some
    enqueued := g.enqueued ++ bundles
    numPending := g.numPending + bundles.length }

section Batch

variable {e : ExecutorState} {choices : DispatchChoices} {s : RunningExecutor} {tgid : Nat}
  {g g' : WorkerGroup BundledExecutable} {rest : List (Nat × List BundledExecutable)}

theorem put_fetchAdd (stepped : g.step .fetchAdd = some g') :
    DispatcherStep e choices (s.put tgid g (.handing tgid rest)) (s.put tgid g' (.handing tgid rest)) := by
  have performs : e.Performs (s.put tgid g (.handing tgid rest)) .fetchAdd _ := .fetchAdd rfl put_self stepped
  rw [put_put] at performs
  exact .fetchAdd performs.systemStep

theorem put_updatePrio (stepped : g.step .dispatcherUpdatePrio = some g')
    (returned : ∀ what, g'.dispatcher ≠ .threw what) :
    DispatcherStep e choices (s.put tgid g (.handing tgid rest)) (s.put tgid g' (.handing tgid rest)) := by
  have performs : e.Performs (s.put tgid g (.handing tgid rest)) .updatePrio _ :=
    .updatePrio rfl put_self stepped returned
  rw [put_put] at performs
  exact .updatePrio performs.systemStep

theorem put_release (stepped : g.step .release = some g') :
    DispatcherStep e choices (s.put tgid g (.handing tgid rest)) (s.put tgid g' (.dispatching rest)) := by
  have performs : e.Performs (s.put tgid g (.handing tgid rest)) .release _ := .release rfl put_self stepped
  rw [put_put] at performs
  exact .release performs.systemStep

/-- The steps of `update_prio` are the call at once. -/
theorem put_updating {n : Nat} {u : WorkerGroup BundledExecutable} (mutex : g.isMutexGroup = true)
    (sole : g.SoleMutexThread) (updated : g.updatePrioAtOnce = .ok u) :
    ReflTransGen (DispatcherStep e choices)
      (s.put tgid { g with dispatcher := .updating n .loadPending } (.handing tgid rest))
      (s.put tgid { u with dispatcher := .releasing n } (.handing tgid rest)) := by
  have loads : ({ g with dispatcher := .updating n .loadPending } : WorkerGroup BundledExecutable).step
      .dispatcherUpdatePrio =
        some { g with dispatcher := .updating n (.loadBoosted (decide (1 < g.numPending))) } := rfl
  refine .head (put_updatePrio loads (by rintro _ ⟨⟩)) ?_
  unfold WorkerGroup.updatePrioAtOnce at updated
  simp only at updated
  split at updated
  · rename_i either
    cases updated
    have same : decide (1 < g.numPending) = g.isBoosted := either.resolve_left (by rw [mutex]; rintro ⟨⟩)
    refine .single (put_updatePrio ?_ (by rintro _ ⟨⟩))
    simp only [WorkerGroup.step, WorkerGroup.updatePrio, same, ↓reduceIte, WorkerGroup.dispatcherAfter]
  · rename_i neither
    have differs : ¬ decide (1 < g.numPending) = g.isBoosted := fun same => neither (Or.inr same)
    rw [if_neg (not_not.2 (sole mutex))] at updated
    cases updated
    have compares : ({ g with dispatcher := .updating n (.loadBoosted (decide (1 < g.numPending))) } :
        WorkerGroup BundledExecutable).step .dispatcherUpdatePrio =
          some { g with dispatcher := .updating n (.setFifoPrio (decide (1 < g.numPending))) } := by
      simp only [WorkerGroup.step, WorkerGroup.updatePrio, if_neg differs, sole mutex, ne_eq, not_true_eq_false,
        ↓reduceIte, WorkerGroup.dispatcherAfter]
    have sets : ({ g with dispatcher := .updating n (.setFifoPrio (decide (1 < g.numPending))) } :
        WorkerGroup BundledExecutable).step .dispatcherUpdatePrio =
          some { g with
            threadPriority := if decide (1 < g.numPending) then maxFifoPrio else g.priority
            dispatcher := .updating n (.storeBoosted (decide (1 < g.numPending))) } := rfl
    refine .head (put_updatePrio compares (by rintro _ ⟨⟩)) ?_
    refine .head (put_updatePrio sets (by rintro _ ⟨⟩)) ?_
    exact .single (put_updatePrio rfl (by rintro _ ⟨⟩))

theorem updatePrioAtOnce_keeps (updated : g.updatePrioAtOnce = .ok g') :
    g'.dispatcher = g.dispatcher ∧ g'.destroyed = g.destroyed := by
  unfold WorkerGroup.updatePrioAtOnce at updated
  simp only at updated
  split at updated
  · cases updated; exact ⟨rfl, rfl⟩
  · split at updated
    · cases updated
    · cases updated; exact ⟨rfl, rfl⟩

theorem updatePrioAtOnce_returned (plain : g.isMutexGroup = false) : g.updatePrioAtOnce = .ok g := by
  unfold WorkerGroup.updatePrioAtOnce
  exact if_pos (Or.inl plain)

/-- **The steps for one batch** end as `dispatchBatch` does. -/
theorem put_batch {bundles : List BundledExecutable} {u : WorkerGroup BundledExecutable}
    (at_ : s.cycle = .dispatching ((tgid, bundles) :: rest)) (found : s.groups tgid = some g)
    (idle : g.dispatcher = .idle) (alive : g.destroyed = false) (sole : g.SoleMutexThread)
    (some_ : bundles.isEmpty = false) (ok : choices.enqueueOk tgid = true)
    (updated : (g.received bundles).updatePrioAtOnce = .ok u) :
    ReflTransGen (DispatcherStep e choices) s
      (s.put tgid { u with semaphore := u.semaphore + bundles.length } (.dispatching rest)) := by
  have handed : g.step (.enqueueBulk bundles) = some (g.handed bundles) := by
    simp only [WorkerGroup.step]
    rw [if_pos ⟨idle, by rw [some_]; rfl, alive⟩]
    rfl
  have first : DispatcherStep e choices s (s.put tgid (g.handed bundles) (.handing tgid rest)) := by
    refine .nextBatch true (fun tgid' bundles' rest' same => ?_) ?_
    · rw [at_] at same
      cases same
      exact ok.symm
    · exact ExecutorState.Performs.systemStep (.handed at_ some_ found handed)
  have added : (g.handed bundles).step .fetchAdd = some { g.received bundles with
      dispatcher := WorkerGroup.dispatcherAfter bundles.length (g.received bundles).callUpdatePrio } := rfl
  have last : ({ u with dispatcher := .releasing bundles.length } : WorkerGroup BundledExecutable).step .release =
      some { u with semaphore := u.semaphore + bundles.length } := by
    have isIdle : u.dispatcher = .idle := (updatePrioAtOnce_keeps updated).1.trans idle
    show some _ = some _
    rw [← isIdle]
  refine .head first (.head (put_fetchAdd added) (.tail ?_ (put_release last)))
  rcases Bool.eq_false_or_eq_true (g.received bundles).isMutexGroup with mutex | plain
  · have call : (g.received bundles).callUpdatePrio = .inside .loadPending := if_pos mutex
    rw [call]
    exact put_updating mutex sole updated
  · have call : (g.received bundles).callUpdatePrio = .returned :=
      if_neg (by rw [plain]; exact Bool.false_ne_true)
    rw [updatePrioAtOnce_returned plain] at updated
    cases updated
    rw [call]
    exact .refl

end Batch

/-! ## The whole call -/

section Call

variable {e : ExecutorState} {choices : DispatchChoices}

/-- A worker group that nobody has told to stop, outside a batch. -/
structure Receives (g : WorkerGroup BundledExecutable) : Prop where
  idle : g.dispatcher = .idle
  alive : g.destroyed = false
  sole : g.SoleMutexThread

/-- **The steps of the dispatch loop** end as the loop at once does. -/
theorem run_batches (collected : Collected) (pending : List (Nat × List BundledExecutable)) :
    ∀ {s : RunningExecutor} {workers : Workers}, (∀ tgid, s.groups tgid = workers.lookup tgid) →
      (∀ tgid g, workers.lookup tgid = some g → Receives g) → s.cycle = .dispatching pending →
      ∃ s', ReflTransGen (DispatcherStep e choices) s s' ∧
        s'.EndsAs ((pending.foldlM (fun workers batch => dispatchBatch choices workers batch.1 batch.2)
          workers).map fun workers => (collected, workers)) := by
  induction pending with
  | nil =>
      intro s workers same _ at_
      refine ⟨{ s with cycle := .idle }, .single (.nextBatch true (fun _ _ _ other => ?_) ?_), rfl, same⟩
      · rw [at_] at other
        cases other
      · exact ExecutorState.Performs.systemStep (.drained at_)
  | cons batch rest ih =>
      obtain ⟨tgid, bundles⟩ := batch
      intro s workers same receives at_
      have next : ∀ {s' : RunningExecutor}, e.systemStep s (.nextBatch (choices.enqueueOk tgid)) = some s' →
          DispatcherStep e choices s s' := by
        refine fun stepped => .nextBatch _ (fun tgid' bundles' rest' other => ?_) stepped
        rw [at_] at other
        cases other
        rfl
      rw [List.foldlM_cons]
      simp only [dispatchBatch]
      cases some_ : bundles.isEmpty with
      | true =>
          have stepped : DispatcherStep e choices s { s with cycle := .dispatching rest } :=
            next (ExecutorState.Performs.systemStep (.skipped at_ some_))
          obtain ⟨s', run, ends⟩ := ih (s := { s with cycle := .dispatching rest }) same receives rfl
          exact ⟨s', .head stepped run, ends⟩
      | false =>
          simp only [Bool.false_eq_true, ↓reduceIte]
          cases found : workers.lookup tgid with
          | none =>
              refine ⟨{ s with cycle := .threw (unknownThreadGroup tgid) }, .single (next ?_), rfl, same⟩
              exact ExecutorState.Performs.systemStep (.unknown at_ some_ ((same tgid).trans found))
          | some g =>
              cases ok : choices.enqueueOk tgid with
              | false =>
                  refine ⟨{ s with cycle := .threw (enqueueFailed tgid) }, .single (next ?_), rfl, same⟩
                  rw [ok]
                  exact ExecutorState.Performs.systemStep (.outOfMemory at_ some_ ((same tgid).trans found))
              | true =>
                  obtain ⟨idle, alive, sole⟩ := receives tgid g found
                  obtain ⟨u, updated, stillSole⟩ := WorkerGroup.updatePrioAtOnce_returns
                    (g := g.received bundles) sole
                  have run := put_batch (e := e) at_ ((same tgid).trans found) idle alive sole some_ ok updated
                  obtain ⟨sameDispatcher, sameDestroyed⟩ := updatePrioAtOnce_keeps updated
                  unfold WorkerGroup.received at updated
                  simp only [Bool.not_true, Bool.false_eq_true, ↓reduceIte, updated]
                  have later := @ih
                    (s.put tgid { u with semaphore := u.semaphore + bundles.length } (.dispatching rest))
                    (workers.insert tgid { u with semaphore := u.semaphore + bundles.length }) ?_ ?_ rfl
                  · obtain ⟨s', later, ends⟩ := later
                    exact ⟨s', run.trans later, ends⟩
                  · intro tgid'
                    rw [UnorderedMap.lookup_insert_eq, ← same tgid']
                    exact Function.update_apply ..
                  · intro tgid' g' at'
                    rw [UnorderedMap.lookup_insert_eq] at at'
                    split at at'
                    · cases at'
                      exact ⟨sameDispatcher.trans idle, sameDestroyed.trans alive, stillSole⟩
                    · exact receives tgid' g' at'

/-- A worker group before shutdown, between two calls. -/
theorem SystemGoing.receives {s : RunningExecutor} (going : SystemGoing e s) (idle : s.cycle = .idle) {tgid : Nat}
    {g : WorkerGroup BundledExecutable} (at_ : s.groups tgid = some g) : Receives g := by
  have goes := (going.groups tgid g at_).2
  refine ⟨going.dispatcher_idle at_ ?_, goes.alive, goes.sole⟩
  rintro ⟨rest, same⟩
  rw [idle] at same
  cases same

end Call

/-- **The call at once and the call step by step agree.**  After a start-up that returned,
in every state before shutdown between two calls of `populate_ready_queues`, whatever
the workers are doing: a call that no worker interrupts has one end, and it is that of
`populateReadyQueues` on the worker groups as they are, for every answer of the
middleware, every iteration order of `bundles_by_tgid` and every batch that finds no
memory.  If it returns, `spin` goes on with the worker groups it leaves; if it throws,
`spin` ends with that exception and the worker groups at that point. -/
theorem call_atOnce {env : Environment} {singleton : Option CallbackRegistry}
    {userChains : List UserChain} {pending weakGroupsToNodes : WeakCallbackGroupsToNodesMap}
    {e : ExecutorState} {registry' : CallbackRegistry}
    (process : ExecutorState.Singleton env singleton pending weakGroupsToNodes)
    (started : (ExecutorState.create userChains pending).startup env singleton = .ok (e, registry')) :
    ∀ s, e.system.ReachableWhile (fun _ label => label.KeepsGoing) s → s.cycle = .idle →
      ∀ (ready : ReadyHandles) (choices : DispatchChoices) (workers : Workers),
        (∀ tgid, s.groups tgid = workers.lookup tgid) →
        ∃ s', e.Calls ready choices s s' ∧
          s'.EndsAs (populateReadyQueues e.callbackHandleToThreadgroupId choices ready workers) ∧
          ∀ s'', e.Calls ready choices s s'' → s'' = s' := by
  obtain ⟨preRegistered, final, timing, inStep, -⟩ := ExecutorState.startup_started process started
  intro s before idle ready choices workers same
  have going : SystemGoing e s := systemGoing_reachable inStep before
  suffices ends : ∃ s', e.Calls ready choices s s' ∧
      s'.EndsAs (populateReadyQueues e.callbackHandleToThreadgroupId choices ready workers) by
    obtain ⟨s', calls, ends⟩ := ends
    exact ⟨s', calls, ends, fun s'' calls' => calls.unique calls'⟩
  have nobody : workers.keys.isEmpty = e.threadGroupIdWorkerMap.keys.isEmpty := by
    rw [Bool.eq_iff_iff, List.isEmpty_iff, List.isEmpty_iff, List.eq_nil_iff_forall_not_mem,
      List.eq_nil_iff_forall_not_mem]
    refine forall_congr' fun tgid => not_congr ?_
    rw [← AList.mem_keys, ← AList.mem_keys, UnorderedMap.mem_iff_lookup, ← same]
    exact ⟨fun ⟨g, at_⟩ => (going.groups tgid g at_).1, groups_reachable before.reachable⟩
  unfold populateReadyQueues
  cases empty : e.threadGroupIdWorkerMap.keys.isEmpty with
  | true =>
      rw [if_pos (nobody.trans empty)]
      exact ⟨s, ⟨s, ExecutorState.Performs.systemStep (.nobody idle empty), .refl, Or.inl idle⟩, idle, same⟩
  | false =>
      rw [if_neg (by rw [nobody, empty]; exact Bool.false_ne_true)]
      cases collect : collectBundles e.callbackHandleToThreadgroupId ready with
      | error error =>
          refine ⟨{ s with cycle := .threw error }, ⟨_, ?_, .refl, Or.inr ⟨error, rfl⟩⟩, rfl, same⟩
          exact ExecutorState.Performs.systemStep (.threw idle empty collect)
      | ok collected =>
          have populated : e.systemStep s (.populate ready choices) = some { s with
              cycle := .dispatching ((choices.order collected.bundlesByTgid).entries.map
                fun pair => (pair.1, pair.2)) } :=
            ExecutorState.Performs.systemStep (.collected idle empty collect)
          obtain ⟨s', run, ends⟩ := run_batches (e := e) collected _
            (s := { s with cycle := .dispatching ((choices.order collected.bundlesByTgid).entries.map
              fun pair => (pair.1, pair.2)) }) same
            (fun tgid g at_ => going.receives idle ((same tgid).trans at_)) rfl
          rw [List.foldlM_map] at ends
          exact ⟨s', ⟨_, populated, run, ends.outside⟩, ends⟩

/-- The second call of the sample, while the worker is in the handler of the subscription:
the timer is ready again, and its bundle is enqueued behind the one that is queued. -/
theorem call_atOnce_sample :
    ∃ e registry handles s g s' g', SampleRan e registry handles s g ∧
      e.Calls ⟨[], [⟨12, true⟩]⟩ storedDispatch s s' ∧
      s'.EndsAs (populateReadyQueues e.callbackHandleToThreadgroupId storedDispatch ⟨[], [⟨12, true⟩]⟩
        ((∅ : Workers).insert 1 g)) ∧
      s'.groups 1 = some g' ∧ g'.queue = [some (.bundledTimer 12), some (.bundledTimer 12)] ∧
      g'.threads = g.threads := by
  obtain ⟨e, registry, handles, s, g, sample⟩ := sample_runs
  obtain ⟨_, started, again⟩ := Loop.exists_ok_of_any
    (x := (ExecutorState.create sampleChains samplePending).startup sampleEnvironment none)
    (p := fun result => (result.1.system.run result.1.running sampleRun).any fun s : RunningExecutor =>
      (s.groups 1).any fun g : WorkerGroup BundledExecutable =>
        (populateReadyQueues result.1.callbackHandleToThreadgroupId storedDispatch ⟨[], [⟨12, true⟩]⟩
          ((∅ : Workers).insert 1 g)).toOption.any fun ended => (ended.2.lookup 1).any fun g' =>
            decide (g'.queue = [some (.bundledTimer 12), some (.bundledTimer 12)] ∧ g'.threads = g.threads))
    (by decide)
  cases sample.started.symm.trans started
  rw [sample.ran, Option.any_some, sample.at_, Option.any_some] at again
  obtain ⟨ended, call, again⟩ := Loop.exists_ok_of_any again
  obtain ⟨g', found, values⟩ := (Option.any_eq_true _ _).1 again
  obtain ⟨queue, threads⟩ := of_decide_eq_true values
  obtain ⟨preRegistered, final, timing, inStep, -⟩ := ExecutorState.startup_started sample_process started
  have reachable := Transition.withHistory_reachableWhile (fun _ => SystemLabel.KeepsGoing)
    sample.keepsGoing
  have same : ∀ tgid, s.groups tgid = ((∅ : Workers).insert 1 g).lookup tgid := by
    intro tgid
    by_cases first : tgid = 1
    · subst first
      rw [sample.at_, AList.lookup_insert]
    · rw [AList.lookup_insert_ne first]
      refine Option.eq_none_iff_forall_ne_some.2 fun g₁ at_ => first ?_
      have present := AList.mem_keys.1 (((systemGoing_reachable inStep reachable).groups tgid g₁ at_).1)
      rw [sample.keys] at present
      exact List.mem_singleton.1 present
  obtain ⟨s', calls, ends, -⟩ := call_atOnce sample_process started s reachable sample.idle
    ⟨[], [⟨12, true⟩]⟩ storedDispatch _ same
  have groups := ends
  rw [call] at groups
  exact ⟨e, registry, handles, s, g, s', g', sample, calls, ends, (groups.2 1).trans found, queue, threads⟩

end PreemptiveExecutor
