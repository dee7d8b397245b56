/-
# Executor.SpinCalls — what calls of `spin` do to an executor, over all histories

Whatever the threads of the process do, and in whatever order the stages of the calls
interleave: an executor enters its loop at most once, since only one call gets past
`spawn_worker_groups`, and the worker groups that call has spawned are never replaced
(`enters_loop_once`).  As the registry is emptied by the first allocation that returns,
one executor of the process has worker groups, and no other ever gets any
(`workers_one`).
-/
import PreemptiveExecutor.Executor.LifeCycle

namespace PreemptiveExecutor

open Theory

set_option autoImplicit false

/-! ## What the stages keep -/

namespace ExecutorState

/-- The timing information and what has been spawned from it. -/
structure SameTiming (e e' : ExecutorState) : Prop where
  handles : e'.callbackHandleToThreadgroupId = e.callbackHandleToThreadgroupId
  threadGroups : e'.threadGroups = e.threadGroups
  workers : e'.threadGroupIdWorkerMap = e.threadGroupIdWorkerMap
  spawned : e'.nonRtCallbackGroupsSpawned = e.nonRtCallbackGroupsSpawned

theorem SameTiming.refl (e : ExecutorState) : SameTiming e e := ⟨rfl, rfl, rfl, rfl⟩

theorem SameTiming.trans {e e₁ e' : ExecutorState} (first : SameTiming e e₁) (second : SameTiming e₁ e') :
    SameTiming e e' :=
  ⟨second.handles.trans first.handles, second.threadGroups.trans first.threadGroups,
    second.workers.trans first.workers, second.spawned.trans first.spawned⟩

theorem classifyGroup_timing {base : BaseExecutor} {handles : UnorderedMap Ptr Nat} (e : ExecutorState)
    (entry : WeakGroupEntry) :
    (∀ e', classifyGroup base handles e entry = .ok e' → SameTiming e e') ∧
      ∀ failed, classifyGroup base handles e entry = .error failed → SameTiming e failed.executor := by
  unfold classifyGroup
  split
  · split
    · exact ⟨nofun, fun failed threw => by cases threw; exact .refl e⟩
    · split
      · split
        · exact ⟨nofun, fun failed threw => by cases threw; exact .refl e⟩
        · exact ⟨fun e' returned => by cases returned; exact ⟨rfl, rfl, rfl, rfl⟩, nofun⟩
      · exact ⟨fun e' returned => by cases returned; exact ⟨rfl, rfl, rfl, rfl⟩, nofun⟩
  · exact ⟨fun e' returned => by cases returned; exact .refl e, nofun⟩

/-- Whether it returns or throws, a classification leaves the timing information alone. -/
theorem classifyCallbackGroups_timing (base : BaseExecutor) (e : ExecutorState) :
    (∀ e', e.classifyCallbackGroups base = .ok e' → SameTiming e e') ∧
      ∀ failed, e.classifyCallbackGroups base = .error failed → SameTiming e failed.executor := by
  unfold classifyCallbackGroups
  split
  · exact ⟨nofun, fun failed threw => by cases threw; exact .refl e⟩
  · rename_i handles _
    have step : ∀ s, ∀ entry ∈ e.pendingWeakGroupsToNodes, SameTiming e s →
        (∀ s', classifyGroup base handles s entry = .ok s' → SameTiming e s') ∧
          ∀ failed, classifyGroup base handles s entry = .error failed → SameTiming e failed.executor :=
      fun s entry _ same => ⟨fun s' moved => same.trans ((classifyGroup_timing s entry).1 s' moved),
        fun failed threw => same.trans ((classifyGroup_timing s entry).2 failed threw)⟩
    obtain ⟨returns, throws⟩ := Loop.foldlM_rule (SameTiming e)
      (fun failed : Failed => SameTiming e failed.executor)
      e.pendingWeakGroupsToNodes step (.refl e)
    cases ran : e.pendingWeakGroupsToNodes.foldlM (classifyGroup base handles) e with
    | error failed => exact ⟨nofun, fun failed' threw => by cases threw; exact throws _ ran⟩
    | ok s =>
        refine ⟨fun e' returned => ?_, nofun⟩
        cases returned
        have same := returns s ran
        exact ⟨same.handles, same.threadGroups, same.workers, same.spawned⟩

/-- `spawn_worker_groups` returns once at most. -/
theorem spawnWorkerGroups_returned {base : BaseExecutor} {e e' : ExecutorState}
    (returned : e.spawnWorkerGroups base = .ok e') :
    e.nonRtCallbackGroupsSpawned = false ∧ ∃ threadGroups, e.threadGroups = some threadGroups ∧
      e' = { e with
        nonRtCallbackGroupsSpawned := true
        threadGroupIdWorkerMap := threadGroups.entries.foldl
          (fun workers pair => UnorderedMap.emplace workers pair.2.tgId (spawnWorkerGroup pair.2))
          e.threadGroupIdWorkerMap } := by
  unfold spawnWorkerGroups at returned
  split at returned
  · rename_i guard
    rw [Bool.and_eq_true, Bool.not_eq_true'] at guard
    split at returned
    · cases returned
    · split at returned
      · cases returned
      · rename_i threadGroups loaded
        cases returned
        exact ⟨guard.1, threadGroups, loaded, rfl⟩
  · cases returned

/-- With timing information it throws before it has changed anything. -/
theorem spawnWorkerGroups_threw {base : BaseExecutor} {e : ExecutorState} {failed : Failed}
    (threw : e.spawnWorkerGroups base = .error failed) (loaded : e.threadGroups ≠ none) : failed.executor = e := by
  unfold spawnWorkerGroups at threw
  split at threw
  · split at threw
    · cases threw
      rfl
    · split at threw
      · contradiction
      · cases threw
  · cases threw
    rfl

end ExecutorState

namespace Process

variable {p p' : Process} {id : Nat} {x x' : LiveExecutor} {action : ExecutorAction}

theorem setExecutor_self (found : (p.setExecutor id x).executors id = some x') : x = x' := by
  simp only [setExecutor, Function.update_self, Option.some.injEq] at found
  exact found

/-- **Invariant rule for executors**, which see each other through the registry only. -/
theorem executors_invariant {meets : Process → ProcessLabel → Prop}
    (J : Nat → Option CallbackRegistry → LiveExecutor → Prop)
    (construct : ∀ id registry userChains, J id registry (.construct userChains))
    (others : ∀ id registry call x, J id registry x → J id (load registry call).2 x)
    (acts : ∀ p id x action p', system.ReachableWhile meets p → p.executors id = some x →
      meets p (.executor id action) → J id p.registry x → Acts p id x action p' →
      ∀ x', p'.executors id = some x' → J id p'.registry x')
    (reachable : system.ReachableWhile meets p) (id : Nat) (x : LiveExecutor) (at_ : p.executors id = some x) :
    J id p.registry x := by
  induction reachable generalizing id x with
  | init start =>
      rw [show _ = Process.start from start] at at_
      cases at_
  | @step p p' label reachable met stepped inv =>
      cases step_cases stepped with
      | @construct id' userChains free =>
          by_cases same : id = id'
          · subst same
            cases setExecutor_self at_
            exact construct ..
          · exact inv id x ((Function.update_of_ne same _ p.executors).symm.trans at_)
      | @acts id' x' action _ at' moves =>
          by_cases same : id = id'
          · subst same
            exact acts p id x' action p' reachable at' met (inv id x' at') moves x at_
          · have kept := inv id x ((moves.elsewhere same).symm.trans at_)
            rcases moves.registry with same' | ⟨call, loaded⟩
            · rw [same']
              exact kept
            · rw [loaded]
              exact others _ _ call x kept
      | otherTakes free => exact inv id x at_
      | otherGivesUp has => exact inv id x at_

end Process

/-! ### Samples -/

/-- The groups of the sample, alive. -/
def sampleLocks : Locks where
  order pending := pending
  order_same := UnorderedMap.sameEntries_refl fun _ => rfl
  group ptr := (samplePending.filterMap (·.group)).find? (·.ptr == ptr)
  group_ptr ptr group' found := by simpa using List.find?_some found
  node _ := true

def sampleNode (ptr : Ptr) : Node := ⟨ptr, "/arm", [some ⟨1, false, true⟩, none, some ⟨2, false, true⟩]⟩

/-- A new executor with a node. -/
def sampleExecutor (id : Nat) (node : Ptr) : List ProcessLabel :=
  [.executor id (.construct sampleChains), .executor id (.addNode (some (sampleNode node)))]

/-- A call of `spin`, up to its loop if it gets there. -/
def sampleSpin (id call : Nat) : List ProcessLabel :=
  [.executor id .spin,
    .executor id (.loadTimingInfo call sampleLocks sampleEnvironment.preRegistered .stored 8),
    .executor id (.classifyCallbackGroups call sampleLocks .accepting),
    .executor id (.spawnWorkerGroups call .accepting)]

/-! ## The loop is entered once -/

/-- One call at most has got past start-up, the one that has set
`non_rt_callback_groups_spawned`; a call behind `load_timing_info` has its timing
information; and worker groups are spawned with the flag. -/
structure LiveExecutor.Once (x : LiveExecutor) : Prop where
  started : x.calls.countP SpinPoint.isStarted = if x.state.nonRtCallbackGroupsSpawned then 1 else 0
  timed : ∀ point ∈ x.calls, point = .loaded ∨ point = .classified → x.state.threadGroups ≠ none
  unspawned : x.state.nonRtCallbackGroupsSpawned = false → x.state.threadGroupIdWorkerMap = ∅

namespace LiveExecutor

theorem Once.construct (userChains : List UserChain) : (construct userChains).Once :=
  ⟨rfl, by rintro _ ⟨⟩, fun _ => rfl⟩

variable {x : LiveExecutor}

/-- A step of a call, as far as it does not get past start-up. -/
theorem Once.setCall {state : ExecutorState} {call : Nat} {point : SpinPoint} (once : x.Once)
    (point' : SpinPoint) (at_ : x.calls[call]? = some point) (starts : point'.isStarted = point.isStarted)
    (same : ExecutorState.SameTiming x.state state)
    (stays : point' = .loaded ∨ point' = .classified → point = .loaded ∨ point = .classified)
    (pending : UnorderedMap Ptr Ptr) (spinning : Bool) :
    ({ x.setCall call point' with state, pending, spinning } : LiveExecutor).Once where
  started := by
    have counted := ThreadPool.countP_set at_ point' SpinPoint.isStarted
    rw [starts] at counted
    show (x.calls.set call point').countP _ = if state.nonRtCallbackGroupsSpawned then 1 else 0
    rw [Nat.add_right_cancel counted, same.spawned]
    exact once.started
  timed := by
    intro other member behind
    show state.threadGroups ≠ none
    rw [same.threadGroups]
    rcases List.mem_or_eq_of_mem_set member with old | rfl
    · exact once.timed other old behind
    · exact once.timed point (List.mem_of_getElem? at_) (stays behind)
  unspawned := by
    intro unset
    show state.threadGroupIdWorkerMap = ∅
    rw [same.workers]
    exact once.unspawned (same.spawned ▸ unset)

theorem Once.acts {p p' : Process} {id : Nat} {action : ExecutorAction} (once : x.Once)
    (acts : Process.Acts p id x action p') {x' : LiveExecutor} (found : p'.executors id = some x') : x'.Once := by
  cases acts with
  | refused why => cases Process.setExecutor_self found; exact once
  | added free => cases Process.setExecutor_self found; exact ⟨once.started, once.timed, once.unspawned⟩
  | spin =>
      cases Process.setExecutor_self found
      refine ⟨?_, fun point member behind => ?_, once.unspawned⟩
      · show (x.calls ++ _).countP _ = _
        rw [List.countP_append, once.started]
        cases x.spinning <;> rfl
      · rcases List.mem_append.1 member with old | new
        · exact once.timed point old behind
        · cases List.mem_singleton.1 new
          split at behind <;> (rcases behind with ⟨⟨⟩⟩ | ⟨⟨⟩⟩)
  | loadThrew at_ threw =>
      cases Process.setExecutor_self found
      exact once.setCall (.threw _) at_ rfl (.refl _) (by rintro (⟨⟨⟩⟩ | ⟨⟨⟩⟩)) _ _
  | loaded at_ returned =>
      cases Process.setExecutor_self found
      refine ⟨?_, fun _ _ _ => nofun, once.unspawned⟩
      have counted := ThreadPool.countP_set at_ .loaded SpinPoint.isStarted
      exact (Nat.add_right_cancel counted).trans once.started
  | classifyThrew at_ threw =>
      cases Process.setExecutor_self found
      have same := (ExecutorState.classifyCallbackGroups_timing _ _).2 _ threw
      exact once.setCall (.threw _) at_ rfl ⟨same.handles, same.threadGroups, same.workers, same.spawned⟩
        (by rintro (⟨⟨⟩⟩ | ⟨⟨⟩⟩)) _ _
  | classified at_ returned =>
      cases Process.setExecutor_self found
      have same := (ExecutorState.classifyCallbackGroups_timing _ _).1 _ returned
      exact once.setCall .classified at_ rfl ⟨same.handles, same.threadGroups, same.workers, same.spawned⟩
        (fun _ => Or.inl rfl) _ _
  | spawnThrew at_ threw =>
      cases Process.setExecutor_self found
      rw [ExecutorState.spawnWorkerGroups_threw threw
        (once.timed _ (List.mem_of_getElem? at_) (Or.inr rfl))]
      exact once.setCall (.threw _) at_ rfl (.refl _) (by rintro (⟨⟨⟩⟩ | ⟨⟨⟩⟩)) _ _
  | spawned at_ returned =>
      cases Process.setExecutor_self found
      obtain ⟨first, threadGroups, isGroups, rfl⟩ := ExecutorState.spawnWorkerGroups_returned returned
      refine ⟨?_, fun _ _ _ => ?_, nofun⟩
      · have counted := ThreadPool.countP_set at_ .looping SpinPoint.isStarted
        rw [once.started, first] at counted
        exact counted
      · show x.state.threadGroups ≠ none
        rw [isGroups]
        exact nofun
  | waited at_ ofNodes => cases Process.setExecutor_self found; exact ⟨once.started, once.timed, once.unspawned⟩
  | left at_ =>
      cases Process.setExecutor_self found
      exact once.setCall (.left _) at_ rfl (.refl _) (by rintro (⟨⟨⟩⟩ | ⟨⟨⟩⟩)) _ _
  | cancelled => cases Process.setExecutor_self found; exact ⟨once.started, once.timed, once.unspawned⟩
  | destroyed outside =>
      simp only [Function.update_self, reduceCtorEq] at found

end LiveExecutor

theorem Process.once_reachable {meets : Process → ProcessLabel → Prop} {p : Process}
    (reachable : Process.system.ReachableWhile meets p) {id : Nat} {x : LiveExecutor}
    (at_ : p.executors id = some x) : x.Once :=
  executors_invariant (fun _ _ x => x.Once) (fun _ _ => .construct) (fun _ _ _ _ once => once)
    (fun _ _ _ _ _ _ _ _ once acts _ found => once.acts acts found) reachable id x at_

/-- The worker groups are spawned, and these ones. -/
structure LiveExecutor.Spawned (workers : UnorderedMap Nat (WorkerGroup BundledExecutable)) (x : LiveExecutor) :
    Prop where
  flag : x.state.nonRtCallbackGroupsSpawned = true
  workers : x.state.threadGroupIdWorkerMap = workers

/-- **Spawned worker groups stay**, until the executor is destroyed. -/
theorem LiveExecutor.Spawned.acts {workers : UnorderedMap Nat (WorkerGroup BundledExecutable)} {x : LiveExecutor}
    {p p' : Process} {id : Nat} {action : ExecutorAction} (spawned : x.Spawned workers) (once : x.Once)
    (acts : Process.Acts p id x action p') (kept : action ≠ .destroy) :
    ∃ x', p'.executors id = some x' ∧ x'.Spawned workers := by
  have timing : ∀ {state : ExecutorState}, ExecutorState.SameTiming x.state state → ∀ pending weakNodes spinning
      calls, (⟨state, pending, weakNodes, spinning, calls⟩ : LiveExecutor).Spawned workers :=
    fun same _ _ _ _ => ⟨same.spawned.trans spawned.flag, same.workers.trans spawned.workers⟩
  cases acts with
  | refused why => exact ⟨_, Function.update_self .., spawned⟩
  | classifyThrew at_ threw =>
      have same := (ExecutorState.classifyCallbackGroups_timing _ _).2 _ threw
      exact ⟨_, Function.update_self .., timing ⟨same.handles, same.threadGroups, same.workers, same.spawned⟩ ..⟩
  | classified at_ returned =>
      have same := (ExecutorState.classifyCallbackGroups_timing _ _).1 _ returned
      exact ⟨_, Function.update_self .., timing ⟨same.handles, same.threadGroups, same.workers, same.spawned⟩ ..⟩
  | spawnThrew at_ threw =>
      rw [ExecutorState.spawnWorkerGroups_threw threw
        (once.timed _ (List.mem_of_getElem? at_) (Or.inr rfl))]
      exact ⟨_, Function.update_self .., timing (.refl _) ..⟩
  | spawned at_ returned =>
      have first := (ExecutorState.spawnWorkerGroups_returned returned).1
      rw [spawned.flag] at first
      cases first
  | destroyed outside => exact absurd rfl kept
  | _ => exact ⟨_, Function.update_self .., spawned.flag, spawned.workers⟩

/-- No step destroys this executor. -/
def ProcessLabel.Keeps (id : Nat) (label : ProcessLabel) : Prop := label ≠ .executor id .destroy

theorem Process.spawned_step {workers : UnorderedMap Nat (WorkerGroup BundledExecutable)} {p p' : Process}
    {label : ProcessLabel} {id : Nat} (reachable : Process.system.Reachable p) (keeps : label.Keeps id)
    (spawned : ∃ x, p.executors id = some x ∧ x.Spawned workers)
    (stepped : Process.system.step p label = some p') : ∃ x, p'.executors id = some x ∧ x.Spawned workers := by
  obtain ⟨x, at_, spawned⟩ := spawned
  cases step_cases stepped with
  | @construct id' userChains free =>
      have other : id ≠ id' := by
        rintro rfl
        rw [free] at at_
        cases at_
      exact ⟨x, (Function.update_of_ne other _ p.executors).trans at_, spawned⟩
  | @acts id' x' action _ at' moves =>
      by_cases same : id = id'
      · subst same
        cases at_.symm.trans at'
        exact spawned.acts (once_reachable reachable at_) moves fun destroys => keeps (congrArg _ destroys)
      · exact ⟨x, (moves.elsewhere same).trans at_, spawned⟩
  | otherTakes free => exact ⟨x, at_, spawned⟩
  | otherGivesUp has => exact ⟨x, at_, spawned⟩

/-- **An executor enters its loop once.**  In every state of every history, whoever
calls `spin`, `cancel` and `add_node` and whatever has thrown before: of all calls of
`spin` on an executor, one at most has got past start-up.  After it has, none ever does
again, and the worker groups stay those it has spawned, as long as the executor lives. -/
theorem Process.enters_loop_once {p : Process} (reachable : Process.system.Reachable p) {id : Nat}
    {x : LiveExecutor} (at_ : p.executors id = some x) :
    x.calls.countP SpinPoint.isStarted ≤ 1 ∧
      (0 < x.calls.countP SpinPoint.isStarted →
        ∀ labels p', Process.system.run p labels = some p' → (∀ label ∈ labels, label.Keeps id) →
          ∃ x', p'.executors id = some x' ∧ x'.calls.countP SpinPoint.isStarted = 1 ∧
            x'.state.threadGroupIdWorkerMap = x.state.threadGroupIdWorkerMap) := by
  have once := once_reachable reachable at_
  constructor
  · rw [once.started]
    split <;> simp
  · intro some_ labels p' ran keeps
    have flag : x.state.nonRtCallbackGroupsSpawned = true := by
      by_contra unset
      rw [once.started, if_neg unset] at some_
      exact absurd some_ (Nat.lt_irrefl 0)
    obtain ⟨reachable', x', found, spawned⟩ := Transition.run_keeps (fun label => label.Keeps id)
      (fun p' => Process.system.Reachable p' ∧
        ∃ x', p'.executors id = some x' ∧ x'.Spawned x.state.threadGroupIdWorkerMap)
      (fun p₁ label p₂ inv keeps stepped =>
        ⟨inv.1.step trivial stepped, spawned_step inv.1 keeps inv.2 stepped⟩)
      ⟨reachable, x, at_, flag, rfl⟩ keeps ran
    refine ⟨x', found, ?_, spawned.workers⟩
    rw [(once_reachable reachable' found).started, if_pos spawned.flag]

/-- The second call of `spin` throws, behind a loop that has ended. -/
theorem Process.enters_loop_once_again :
    ∃ p x p' x', Process.system.run .start (sampleExecutor 0 100 ++ sampleSpin 0 0) = some p ∧
      Process.system.run p (.executor 0 (.leave 0 none) :: sampleSpin 0 1) = some p' ∧
      p.executors 0 = some x ∧ p'.executors 0 = some x' ∧
      x'.calls = [.left none, .threw (.runtimeError "Non-RT executor already spawned")] ∧
      x'.state.threadGroupIdWorkerMap = x.state.threadGroupIdWorkerMap := by
  have values : ((Process.system.run .start (sampleExecutor 0 100 ++ sampleSpin 0 0)).bind fun p =>
      (Process.system.run p (.executor 0 (.leave 0 none) :: sampleSpin 0 1)).bind fun p' =>
        (p.executors 0).bind fun x => (p'.executors 0).map fun x' => (x.calls, x'.calls)) =
      some ([.looping], [.left none, .threw (.runtimeError "Non-RT executor already spawned")]) := by decide
  obtain ⟨p, ran, values⟩ := Option.bind_eq_some_iff.1 values
  obtain ⟨p', again, values⟩ := Option.bind_eq_some_iff.1 values
  obtain ⟨x, at_, values⟩ := Option.bind_eq_some_iff.1 values
  obtain ⟨x', at', calls⟩ := Option.map_eq_some_iff.1 values
  obtain ⟨before, after⟩ := Prod.mk.inj calls
  have reachable := Transition.reachableWhile_run (.init rfl) ran
  obtain ⟨y, found, -, same⟩ := (enters_loop_once reachable at_).2 (by rw [before]; decide) _ p' again
    (by simp [sampleSpin, ProcessLabel.Keeps])
  cases at'.symm.trans found
  exact ⟨p, x, p', x', ran, again, at_, at', after, same⟩

/-! ## One executor has worker groups -/

/-- The executor has no worker groups, and no threadgroup to spawn one for. -/
structure LiveExecutor.Untimed (x : LiveExecutor) : Prop where
  threadGroups : ∀ threadGroups, x.state.threadGroups = some threadGroups → threadGroups = ∅
  workers : x.state.threadGroupIdWorkerMap = ∅

namespace LiveExecutor

theorem untimed_construct (userChains : List UserChain) : (construct userChains).Untimed := ⟨nofun, rfl⟩

theorem Untimed.sameTiming {x x' : LiveExecutor} (untimed : x.Untimed)
    (same : ExecutorState.SameTiming x.state x'.state) : x'.Untimed :=
  ⟨fun _ found => untimed.threadGroups _ (same.threadGroups ▸ found),
    same.workers.trans untimed.workers⟩

/-- With the registry emptied, it stays so. -/
theorem Untimed.acts {x : LiveExecutor} {p p' : Process} {id : Nat} {action : ExecutorAction}
    (untimed : x.Untimed) (emptied : p.registry = some {}) (once : x.Once)
    (acts : Process.Acts p id x action p') {x' : LiveExecutor} (found : p'.executors id = some x') :
    x'.Untimed := by
  cases acts with
  | loaded at_ returned =>
      cases Process.setExecutor_self found
      rw [emptied, load_emptied] at returned
      cases returned
      exact ⟨fun _ isGroups => (Option.some.inj isGroups).symm, untimed.workers⟩
  | classifyThrew at_ threw =>
      cases Process.setExecutor_self found
      have same := (ExecutorState.classifyCallbackGroups_timing _ _).2 _ threw
      exact untimed.sameTiming ⟨same.handles, same.threadGroups, same.workers, same.spawned⟩
  | classified at_ returned =>
      cases Process.setExecutor_self found
      have same := (ExecutorState.classifyCallbackGroups_timing _ _).1 _ returned
      exact untimed.sameTiming ⟨same.handles, same.threadGroups, same.workers, same.spawned⟩
  | spawnThrew at_ threw =>
      cases Process.setExecutor_self found
      have kept := ExecutorState.spawnWorkerGroups_threw threw
        (once.timed _ (List.mem_of_getElem? at_) (Or.inr rfl))
      exact untimed.sameTiming (kept ▸ .refl _)
  | spawned at_ returned =>
      cases Process.setExecutor_self found
      obtain ⟨-, _, isGroups, rfl⟩ := ExecutorState.spawnWorkerGroups_returned returned
      refine ⟨untimed.threadGroups, ?_⟩
      cases untimed.threadGroups _ isGroups
      exact untimed.workers
  | destroyed outside => simp only [Function.update_self, reduceCtorEq] at found
  | _ =>
      cases Process.setExecutor_self found
      exact untimed.sameTiming ⟨rfl, rfl, rfl, rfl⟩

end LiveExecutor

namespace Process

variable {p : Process}

/-- Until an allocation has returned, no executor has timing information. -/
theorem untimed_before (reachable : system.Reachable p) (before : p.registry ≠ some {}) {id : Nat}
    {x : LiveExecutor} (at_ : p.executors id = some x) :
    x.state.threadGroups = none ∧ x.state.threadGroupIdWorkerMap = ∅ := by
  refine executors_invariant (fun _ registry x => registry ≠ some {} →
      x.state.threadGroups = none ∧ x.state.threadGroupIdWorkerMap = ∅)
    (fun _ _ _ _ => ⟨rfl, rfl⟩) (fun _ registry call x inv loaded => inv fun emptied => loaded ?_)
    (fun p id x action p' reachable at_ _ inv acts x' found before => ?_) reachable id x at_ before
  · rw [emptied, load_emptied]
  · have once := once_reachable reachable at_
    cases acts with
    | loadThrew at_ threw =>
        cases setExecutor_self found
        refine inv fun emptied => ?_
        rw [emptied, load_emptied] at threw
        cases threw
    | loaded at_ returned =>
        refine absurd ?_ before
        have emptied := load_returned (congrArg Prod.fst returned)
        rwa [returned] at emptied
    | classifyThrew at_ threw =>
        cases setExecutor_self found
        have same := (ExecutorState.classifyCallbackGroups_timing _ _).2 _ threw
        exact ⟨same.threadGroups.trans (inv before).1, same.workers.trans (inv before).2⟩
    | classified at_ returned =>
        cases setExecutor_self found
        have same := (ExecutorState.classifyCallbackGroups_timing _ _).1 _ returned
        exact ⟨same.threadGroups.trans (inv before).1, same.workers.trans (inv before).2⟩
    | spawnThrew at_ threw =>
        cases setExecutor_self found
        rw [ExecutorState.spawnWorkerGroups_threw threw
          (once.timed _ (List.mem_of_getElem? at_) (Or.inr rfl))]
        exact inv before
    | spawned at_ returned =>
        obtain ⟨first, threadGroups, isGroups, rfl⟩ := ExecutorState.spawnWorkerGroups_returned returned
        rw [(inv before).1] at isGroups
        cases isGroups
    | destroyed outside => simp only [Function.update_self, reduceCtorEq] at found
    | _ =>
        cases setExecutor_self found
        exact inv before

/-- Timing information comes with the one allocation that returns before the registry
is emptied. -/
theorem step_timed {p' : Process} {label : ProcessLabel} (reachable : system.Reachable p)
    (stepped : system.step p label = some p') {id : Nat} {x' : LiveExecutor} (found : p'.executors id = some x')
    (timed : ¬ x'.Untimed) :
    (∃ x, p.executors id = some x ∧ ¬ x.Untimed) ∨
      p.registry ≠ some {} ∧ ∃ action, label = .executor id action := by
  cases step_cases stepped with
  | @construct id' userChains free =>
      by_cases same : id = id'
      · subst same
        cases setExecutor_self found
        exact absurd (LiveExecutor.untimed_construct userChains) timed
      · exact Or.inl ⟨x', (Function.update_of_ne same _ p.executors).symm.trans found, timed⟩
  | @acts id' x action _ at_ moves =>
      by_cases same : id = id'
      · subst same
        by_cases emptied : p.registry = some {}
        · exact Or.inl ⟨x, at_, fun untimed =>
            timed (untimed.acts emptied (once_reachable reachable at_) moves found)⟩
        · exact Or.inr ⟨emptied, action, rfl⟩
      · exact Or.inl ⟨x', (moves.elsewhere same).symm.trans found, timed⟩
  | otherTakes free => exact Or.inl ⟨x', found, timed⟩
  | otherGivesUp has => exact Or.inl ⟨x', found, timed⟩

theorem untimed_of_before {p : Process} (reachable : system.Reachable p) (before : p.registry ≠ some {})
    {id : Nat} {x : LiveExecutor} (at_ : p.executors id = some x) : x.Untimed := by
  obtain ⟨groups, workers⟩ := untimed_before reachable before at_
  refine ⟨fun threadGroups isGroups => ?_, workers⟩
  rw [groups] at isGroups
  cases isGroups

/-- At most one executor has timing information with a threadgroup in it. -/
theorem timed_sole (reachable : system.Reachable p) {id id' : Nat} {x x' : LiveExecutor}
    (at_ : p.executors id = some x) (at' : p.executors id' = some x') (timed : ¬ x.Untimed)
    (timed' : ¬ x'.Untimed) : id = id' := by
  induction reachable generalizing id id' x x' with
  | init start =>
      rw [show _ = Process.start from start] at at_
      cases at_
  | @step p _ label reachable _ stepped ih =>
      rcases step_timed reachable stepped at_ timed with ⟨y, found, was⟩ | ⟨before, action, rfl⟩
      · rcases step_timed reachable stepped at' timed' with ⟨y', found', was'⟩ | ⟨before', -⟩
        · exact ih found found' was was'
        · exact absurd (untimed_of_before reachable before' found) was
      · rcases step_timed reachable stepped at' timed' with ⟨y', found', was'⟩ | ⟨-, action', same⟩
        · exact absurd (untimed_of_before reachable before found') was'
        · cases same
          rfl

/-- Once emptied, the registry stays empty, through every step of the process. -/
theorem emptied_step {p p' : Process} {label : ProcessLabel} (emptied : p.registry = some {})
    (stepped : system.step p label = some p') : p'.registry = some {} := by
  cases step_cases stepped with
  | acts at_ moves =>
      rcases moves.registry with same | ⟨call, loaded⟩
      · exact same.trans emptied
      · rw [loaded, emptied, load_emptied]
  | _ => exact emptied

/-- The registry is emptied, and who has timing information is the executor that has
these worker groups. -/
structure Sole (id : Nat) (workers : UnorderedMap Nat (WorkerGroup BundledExecutable)) (p : Process) : Prop where
  reachable : system.Reachable p
  emptied : p.registry = some {}
  only : ∀ id' x', p.executors id' = some x' → ¬ x'.Untimed → id' = id ∧ x'.Spawned workers

theorem Sole.step {p p' : Process} {label : ProcessLabel} {id : Nat}
    {workers : UnorderedMap Nat (WorkerGroup BundledExecutable)} (sole : Sole id workers p)
    (stepped : system.step p label = some p') : Sole id workers p' := by
  refine ⟨sole.reachable.step trivial stepped, emptied_step sole.emptied stepped, fun id' x' found timed => ?_⟩
  rcases step_timed sole.reachable stepped found timed with ⟨x, at_, was⟩ | ⟨before, -⟩
  · obtain ⟨same, spawned⟩ := sole.only id' x at_ was
    refine ⟨same, ?_⟩
    by_cases keeps : label.Keeps id'
    · obtain ⟨x₁, at₁, spawned₁⟩ := spawned_step sole.reachable keeps ⟨x, at_, spawned⟩ stepped
      cases at₁.symm.trans found
      exact spawned₁
    · -- the step has destroyed it
      cases not_not.1 keeps
      cases step_cases stepped with
      | acts at₁ moves =>
          cases moves
          simp only [Function.update_self, reduceCtorEq] at found
  · exact absurd sole.emptied before

/-- **One executor of a process has worker groups.**  Of all executors that a process
constructs, in whatever order they are spun, cancelled and destroyed: once one of them
has a worker group, no other one ever has any, nor has one constructed later, even after
the first has been destroyed. -/
theorem workers_one (reachable : system.Reachable p) {id : Nat} {x : LiveExecutor}
    (at_ : p.executors id = some x) (some_ : x.state.threadGroupIdWorkerMap ≠ ∅) :
    ∀ labels p', system.run p labels = some p' → ∀ id' x', p'.executors id' = some x' →
      x'.state.threadGroupIdWorkerMap ≠ ∅ →
        id' = id ∧ x'.state.threadGroupIdWorkerMap = x.state.threadGroupIdWorkerMap := by
  intro labels p' ran id' x' found some'
  have sole : Sole id x.state.threadGroupIdWorkerMap p := by
    refine ⟨reachable, ?_, fun id' x' found timed => ?_⟩
    · by_contra before
      exact some_ (untimed_before reachable before at_).2
    · cases timed_sole reachable found at_ timed fun untimed => some_ untimed.workers
      cases at_.symm.trans found
      refine ⟨rfl, ?_, rfl⟩
      by_contra unset
      exact some_ ((once_reachable reachable at_).unspawned (Bool.eq_false_iff.2 unset))
  have later : Sole id x.state.threadGroupIdWorkerMap p' :=
    Transition.run_keeps (fun _ => True) (Sole id x.state.threadGroupIdWorkerMap)
      (fun _ _ _ sole _ stepped => sole.step stepped) sole (fun _ _ => trivial) ran
  obtain ⟨same, spawned⟩ := later.only id' x' found fun untimed => some' untimed.workers
  exact ⟨same, spawned.workers⟩

/-- Two executors in their loops, the second without worker groups. -/
theorem workers_one_second :
    ∃ p x p' x', system.run .start (sampleExecutor 0 100 ++ sampleSpin 0 0) = some p ∧
      system.run p (sampleExecutor 1 200 ++ sampleSpin 1 0) = some p' ∧
      p.executors 0 = some x ∧ p'.executors 1 = some x' ∧ x'.calls = [.looping] ∧
      x'.state.threadGroupIdWorkerMap = ∅ := by
  have values : ((system.run .start (sampleExecutor 0 100 ++ sampleSpin 0 0)).bind fun p =>
      (system.run p (sampleExecutor 1 200 ++ sampleSpin 1 0)).bind fun p' =>
        (p.executors 0).bind fun x => (p'.executors 1).map fun x' =>
          (x.state.threadGroupIdWorkerMap.keys, x'.calls)) = some ([1], [.looping]) := by decide
  obtain ⟨p, ran, values⟩ := Option.bind_eq_some_iff.1 values
  obtain ⟨p', later, values⟩ := Option.bind_eq_some_iff.1 values
  obtain ⟨x, at_, values⟩ := Option.bind_eq_some_iff.1 values
  obtain ⟨x', at', both⟩ := Option.map_eq_some_iff.1 values
  obtain ⟨groups, calls⟩ := Prod.mk.inj both
  have reachable := Transition.reachableWhile_run (.init rfl) ran
  refine ⟨p, x, p', x', ran, later, at_, at', calls, ?_⟩
  by_contra some_
  have first := workers_one reachable at_ (fun none_ => by rw [none_] at groups; cases groups) _ p' later 1 x' at' some_
  exact absurd first.1 (by decide)

end Process

end PreemptiveExecutor
