/-
# Executor.SystemSteps — the running executor as a relation

`ExecutorState.systemStep` computes what a step leads to.  `Performs` says the same as a
relation, with one constructor for each branch of the dispatch loop, of the workers and
of the shutdown (`systemStep_performs`, `Performs.systemStep`).  What holds in every
state of a run is proved by cases of it; `SystemStep` keeps of it what the flow of the
bundles needs.
-/
import PreemptiveExecutor.Executor.MutualExclusion

namespace PreemptiveExecutor

open Theory

set_option autoImplicit false

/-! ## One worker group -/

/-- The executor with another state of one worker group, and the dispatcher elsewhere. -/
def RunningExecutor.put (s : RunningExecutor) (tgid : Nat) (g : WorkerGroup BundledExecutable) (cycle : Cycle) :
    RunningExecutor :=
  { groups := Function.update s.groups tgid (some g), cycle }

section Put

variable {s s' : RunningExecutor} {tgid tgid' : Nat} {g g' : WorkerGroup BundledExecutable} {cycle : Cycle}

@[simp] theorem put_cycle : (s.put tgid g cycle).cycle = cycle := rfl

@[simp] theorem put_self : (s.put tgid g cycle).groups tgid = some g := Function.update_self ..

theorem put_of_ne (other : tgid' ≠ tgid) : (s.put tgid g cycle).groups tgid' = s.groups tgid' :=
  Function.update_of_ne other ..

@[simp] theorem put_put (cycle' : Cycle) : (s.put tgid g cycle).put tgid g' cycle' = s.put tgid g' cycle' := by
  simp [RunningExecutor.put]

theorem stepGroup_put {label : WorkerGroup.Label BundledExecutable} (found : s.groups tgid = some g)
    (stepped : g.step label = some g') : s.stepGroup tgid label = some (s.put tgid g' s.cycle) := by
  rw [RunningExecutor.stepGroup, found, Option.bind_some, stepped, Option.map_some]
  rfl

end Put

/-! ## The whole executor -/

/-- **What a step does**, branch by branch. -/
inductive ExecutorState.Performs (e : ExecutorState) (s : RunningExecutor) :
    SystemLabel → RunningExecutor → Prop where
  | nobody {ready : ReadyHandles} {choices : DispatchChoices} (idle : s.cycle = .idle)
      (nobody : e.threadGroupIdWorkerMap.keys.isEmpty = true) : Performs e s (.populate ready choices) s
  | threw {ready : ReadyHandles} {choices : DispatchChoices} {error : Error} (idle : s.cycle = .idle)
      (somebody : e.threadGroupIdWorkerMap.keys.isEmpty = false)
      (collects : collectBundles e.callbackHandleToThreadgroupId ready = .error error) :
      Performs e s (.populate ready choices) { s with cycle := .threw error }
  | collected {ready : ReadyHandles} {choices : DispatchChoices} {c : Collected} (idle : s.cycle = .idle)
      (somebody : e.threadGroupIdWorkerMap.keys.isEmpty = false)
      (collects : collectBundles e.callbackHandleToThreadgroupId ready = .ok c) :
      Performs e s (.populate ready choices) { s with
        cycle := .dispatching ((choices.order c.bundlesByTgid).entries.map fun pair => (pair.1, pair.2)) }
  | drained {enqueueOk : Bool} (at_ : s.cycle = .dispatching []) :
      Performs e s (.nextBatch enqueueOk) { s with cycle := .idle }
  | skipped {enqueueOk : Bool} {tgid : Nat} {bundles : List BundledExecutable}
      {rest : List (Nat × List BundledExecutable)} (at_ : s.cycle = .dispatching ((tgid, bundles) :: rest))
      (empty : bundles.isEmpty = true) : Performs e s (.nextBatch enqueueOk) { s with cycle := .dispatching rest }
  | unknown {enqueueOk : Bool} {tgid : Nat} {bundles : List BundledExecutable}
      {rest : List (Nat × List BundledExecutable)} (at_ : s.cycle = .dispatching ((tgid, bundles) :: rest))
      (some_ : bundles.isEmpty = false) (missing : s.groups tgid = none) :
      Performs e s (.nextBatch enqueueOk) { s with cycle := .threw (unknownThreadGroup tgid) }
  | outOfMemory {tgid : Nat} {bundles : List BundledExecutable} {rest : List (Nat × List BundledExecutable)}
      {g : WorkerGroup BundledExecutable} (at_ : s.cycle = .dispatching ((tgid, bundles) :: rest))
      (some_ : bundles.isEmpty = false) (found : s.groups tgid = some g) :
      Performs e s (.nextBatch false) { s with cycle := .threw (enqueueFailed tgid) }
  | handed {tgid : Nat} {bundles : List BundledExecutable} {rest : List (Nat × List BundledExecutable)}
      {g g' : WorkerGroup BundledExecutable} (at_ : s.cycle = .dispatching ((tgid, bundles) :: rest))
      (some_ : bundles.isEmpty = false) (found : s.groups tgid = some g)
      (stepped : g.step (.enqueueBulk bundles) = some g') :
      Performs e s (.nextBatch true) (s.put tgid g' (.handing tgid rest))
  | fetchAdd {tgid : Nat} {rest : List (Nat × List BundledExecutable)} {g g' : WorkerGroup BundledExecutable}
      (at_ : s.cycle = .handing tgid rest) (found : s.groups tgid = some g) (stepped : g.step .fetchAdd = some g') :
      Performs e s .fetchAdd (s.put tgid g' s.cycle)
  | updatePrio {tgid : Nat} {rest : List (Nat × List BundledExecutable)} {g g' : WorkerGroup BundledExecutable}
      (at_ : s.cycle = .handing tgid rest) (found : s.groups tgid = some g)
      (stepped : g.step .dispatcherUpdatePrio = some g') (returned : ∀ what, g'.dispatcher ≠ .threw what) :
      Performs e s .updatePrio (s.put tgid g' s.cycle)
  | updatePrioThrew {tgid : Nat} {rest : List (Nat × List BundledExecutable)}
      {g g' : WorkerGroup BundledExecutable} {what : String} (at_ : s.cycle = .handing tgid rest)
      (found : s.groups tgid = some g) (stepped : g.step .dispatcherUpdatePrio = some g')
      (threw : g'.dispatcher = .threw what) :
      Performs e s .updatePrio (s.put tgid g' (.threw (.runtimeError what)))
  | release {tgid : Nat} {rest : List (Nat × List BundledExecutable)} {g g' : WorkerGroup BundledExecutable}
      (at_ : s.cycle = .handing tgid rest) (found : s.groups tgid = some g) (stepped : g.step .release = some g') :
      Performs e s .release (s.put tgid g' (.dispatching rest))
  | worker {tgid i : Nat} {action : WorkerGroup.WorkerAction} {g g' : WorkerGroup BundledExecutable}
      (found : s.groups tgid = some g) (stepped : g.step (.worker i action) = some g') :
      Performs e s (.worker tgid i action) (s.put tgid g' s.cycle)
  | setOk {ok : Bool} : Performs e s (.setOk ok) (s.stepAll (.setOk ok))
  | setSpinning {spinning : Bool} : Performs e s (.setSpinning spinning) (s.stepAll (.setSpinning spinning))
  | destroy {tgid : Nat} {g g' : WorkerGroup BundledExecutable}
      (outside : s.cycle = .idle ∨ ∃ error, s.cycle = .threw error) (found : s.groups tgid = some g)
      (stepped : g.step .destroy = some g') : Performs e s (.destroy tgid) (s.put tgid g' s.cycle)

section System

variable {e : ExecutorState} {s s' : RunningExecutor} {label : SystemLabel}

theorem systemStep_performs (stepped : e.systemStep s label = some s') : e.Performs s label s' := by
  cases label with
  | populate ready choices =>
      simp only [ExecutorState.systemStep] at stepped
      split at stepped
      · rename_i idle
        split at stepped
        · rename_i nobody
          cases stepped
          exact .nobody idle nobody
        · rename_i somebody
          split at stepped
          · rename_i error threw
            cases stepped
            exact .threw idle (Bool.eq_false_iff.2 somebody) threw
          · rename_i c collects
            cases stepped
            exact .collected idle (Bool.eq_false_iff.2 somebody) collects
      · cases stepped
  | nextBatch enqueueOk =>
      simp only [ExecutorState.systemStep] at stepped
      split at stepped
      · rename_i at_
        cases stepped
        exact .drained at_
      · rename_i tgid bundles rest at_
        split at stepped
        · rename_i empty
          cases stepped
          exact .skipped at_ empty
        · rename_i some_
          have some_ := Bool.eq_false_iff.2 some_
          cases found : s.groups tgid with
          | none =>
              rw [found, Option.isNone_none, if_pos rfl] at stepped
              cases stepped
              exact .unknown at_ some_ found
          | some g =>
              rw [found, Option.isNone_some, if_neg Bool.false_ne_true] at stepped
              cases enqueueOk with
              | false =>
                  cases stepped
                  exact .outOfMemory at_ some_ found
              | true =>
                  obtain ⟨s₁, moved, rfl⟩ := Option.map_eq_some_iff.1 stepped
                  obtain ⟨g, g', found, moves, rfl⟩ := stepGroup_cases moved
                  exact .handed at_ some_ found moves
      · cases stepped
  | fetchAdd =>
      simp only [ExecutorState.systemStep] at stepped
      split at stepped
      · rename_i tgid rest at_
        obtain ⟨g, g', found, moves, rfl⟩ := stepGroup_cases stepped
        exact .fetchAdd at_ found moves
      · cases stepped
  | updatePrio =>
      simp only [ExecutorState.systemStep] at stepped
      split at stepped
      · rename_i tgid rest at_
        obtain ⟨s₁, moved, rfl⟩ := Option.map_eq_some_iff.1 stepped
        obtain ⟨g, g', found, moves, rfl⟩ := stepGroup_cases moved
        split
        · rename_i what threw
          simp only [Function.update_self, Option.map_some, Option.some.injEq] at threw
          exact .updatePrioThrew at_ found moves threw
        · rename_i returned
          refine .updatePrio at_ found moves fun what threw => returned what ?_
          simp only [Function.update_self, Option.map_some, threw]
      · cases stepped
  | release =>
      simp only [ExecutorState.systemStep] at stepped
      split at stepped
      · rename_i tgid rest at_
        obtain ⟨s₁, moved, rfl⟩ := Option.map_eq_some_iff.1 stepped
        obtain ⟨g, g', found, moves, rfl⟩ := stepGroup_cases moved
        exact .release at_ found moves
      · cases stepped
  | worker tgid i action =>
      obtain ⟨g, g', found, moves, rfl⟩ := stepGroup_cases stepped
      exact .worker found moves
  | setOk ok =>
      cases stepped
      exact .setOk
  | setSpinning spinning =>
      cases stepped
      exact .setSpinning
  | destroy tgid =>
      simp only [ExecutorState.systemStep] at stepped
      split at stepped
      · rename_i idle
        obtain ⟨g, g', found, moves, rfl⟩ := stepGroup_cases stepped
        exact .destroy (Or.inl idle) found moves
      · rename_i error threw
        obtain ⟨g, g', found, moves, rfl⟩ := stepGroup_cases stepped
        exact .destroy (Or.inr ⟨error, threw⟩) found moves
      · cases stepped

theorem ExecutorState.Performs.systemStep (performs : e.Performs s label s') : e.systemStep s label = some s' := by
  cases performs with
  | nobody idle nobody => simp only [ExecutorState.systemStep, idle, nobody, ↓reduceIte]
  | threw idle somebody collects | collected idle somebody collects =>
      simp only [ExecutorState.systemStep, idle, somebody, collects, Bool.false_eq_true, ↓reduceIte]
  | drained at_ => simp only [ExecutorState.systemStep, at_]
  | skipped at_ empty => simp only [ExecutorState.systemStep, at_, empty, ↓reduceIte]
  | unknown at_ some_ missing =>
      simp only [ExecutorState.systemStep, at_, some_, missing, Option.isNone_none, Bool.false_eq_true, ↓reduceIte]
  | outOfMemory at_ some_ found =>
      simp only [ExecutorState.systemStep, at_, some_, found, Option.isNone_some, Bool.not_false,
        Bool.false_eq_true, ↓reduceIte]
  | handed at_ some_ found stepped =>
      simp only [ExecutorState.systemStep, at_, some_, found, Option.isNone_some, stepGroup_put found stepped,
        Bool.not_true, Bool.false_eq_true, ↓reduceIte, Option.map_some]
      rfl
  | fetchAdd at_ found stepped => simp only [ExecutorState.systemStep, at_, stepGroup_put found stepped]
  | @updatePrio tgid rest g g' at_ found stepped returned =>
      simp only [ExecutorState.systemStep, at_, stepGroup_put found stepped, Option.map_some, put_self]
      split
      · rename_i what threw
        exact absurd (Option.some.inj threw) (returned what)
      · rfl
  | updatePrioThrew at_ found stepped threw =>
      simp only [ExecutorState.systemStep, at_, stepGroup_put found stepped, Option.map_some, put_self, threw]
      rfl
  | release at_ found stepped =>
      simp only [ExecutorState.systemStep, at_, stepGroup_put found stepped, Option.map_some]
      rfl
  | worker found stepped => exact stepGroup_put found stepped
  | setOk => rfl
  | setSpinning => rfl
  | destroy outside found stepped =>
      rcases outside with idle | ⟨error, threw⟩
      · simp only [ExecutorState.systemStep, idle, stepGroup_put found stepped]
      · simp only [ExecutorState.systemStep, threw, stepGroup_put found stepped]

end System

end PreemptiveExecutor
