/-
# Executor.LoopState — what the loop of `spin` runs on

Without a `cancel` the flag `spinning` is a lock: the calls of `spin` on one executor
exclude each other.  So what dispatch reads in the loop, the handle map, the groups that
are waited for and the worker groups, is what the stages of that one call have left, and
it is in step: either there is no worker group at all, or every handle that can become ready
leads to one.  While the loop runs nothing changes it, whatever the other executors of the
process do, but the loop's own waits: they add the groups that they find without an executor
in the nodes of this one, and erase expired ones (`loop_undisturbed`).
-/
import PreemptiveExecutor.Executor.SpinCalls

namespace PreemptiveExecutor

open Theory

set_option autoImplicit false

/-! ## The registry -/

theorem load_sound {singleton : Option CallbackRegistry} (sound : ∀ r, singleton = some r → r.Sound)
    (call : LoadCall) : ∀ r, (load singleton call).2 = some r → r.Sound := by
  have allocates : ∀ {r : CallbackRegistry}, r.Sound → ∀ r', (allocate call r).2 = some r' → r'.Sound := by
    intro r sound r' left
    unfold allocate at left
    split at left
    · rename_i thrown failed
      cases left
      exact (CallbackRegistry.callbackThreadgroupAllocation_leaves sound failed).sound
    · rename_i returned
      cases left
      rw [CallbackRegistry.callbackThreadgroupAllocation_clears returned]
      exact CallbackRegistry.sound_empty
  unfold load
  split
  · exact allocates (sound _ rfl)
  · split
    · exact nofun
    · rename_i constructed
      exact allocates (CallbackRegistry.construct_sound constructed)

/-- What a call that returns has exported. -/
theorem load_exports {singleton registry : Option CallbackRegistry} {call : LoadCall} {timing : TimingExport}
    (sound : ∀ r, singleton = some r → r.Sound) (returned : load singleton call = (.ok timing, registry)) :
    ∃ final : CallbackRegistry, final.Sound ∧ final.Exports timing := by
  have allocates : ∀ {r : CallbackRegistry}, r.Sound → allocate call r = (.ok timing, registry) →
      ∃ final : CallbackRegistry, final.Sound ∧ final.Exports timing := by
    intro r sound returned
    unfold allocate at returned
    split at returned
    · cases returned
    · rename_i allocated
      cases returned
      obtain ⟨final, from_, exports, -⟩ := CallbackRegistry.callbackThreadgroupAllocation_exports sound allocated
      exact ⟨final, from_.sound, exports⟩
  unfold load at returned
  split at returned
  · exact allocates (sound _ rfl) returned
  · split at returned
    · cases returned
    · rename_i constructed
      exact allocates (CallbackRegistry.construct_sound constructed) returned

theorem Process.registry_sound {meets : Process → ProcessLabel → Prop} {p : Process}
    (reachable : Process.system.ReachableWhile meets p) : ∀ r, p.registry = some r → r.Sound := by
  refine Transition.invariant (fun p => ∀ r, p.registry = some r → r.Sound) (fun p start => ?_)
    (fun p label p' sound _ stepped => ?_) reachable
  · rw [show p = Process.start from start]
    rintro r ⟨⟩
  · cases step_cases stepped with
    | acts at_ moves =>
        rcases moves.registry with same | ⟨call, loaded⟩
        · rw [same]
          exact sound
        · rw [loaded]
          exact load_sound sound call
    | _ => exact sound

/-! ## The groups that are waited for -/

namespace ExecutorState

/-- The groups in the map have all of their subscriptions and timers in the handle map. -/
def WaitsWithin (handles : UnorderedMap Ptr Nat) (e : ExecutorState) : Prop :=
  ∀ entry ∈ e.weakGroupsToNodes, ∀ group, entry.group = some group → ∀ ptr ∈ group.dispatched, ptr ∈ handles

theorem classifyGroup_within {base : BaseExecutor} {handles : UnorderedMap Ptr Nat} {e : ExecutorState}
    (entry : WeakGroupEntry) (within : e.WaitsWithin handles) :
    (∀ e', classifyGroup base handles e entry = .ok e' → e'.WaitsWithin handles) ∧
      ∀ failed, classifyGroup base handles e entry = .error failed → failed.executor.WaitsWithin handles := by
  constructor
  · intro e' moved entry' member group isGroup
    obtain ⟨-, -, -, new⟩ := classifyGroup_ok moved
    rcases new entry' member with old | ⟨group', node, rfl, all⟩
    · exact within entry' old group isGroup
    · cases isGroup
      exact all
  · intro failed threw
    unfold classifyGroup at threw
    split at threw
    · split at threw
      · cases threw; exact within
      · split at threw
        · split at threw
          · cases threw; exact within
          · cases threw
        · cases threw
    · cases threw

/-- Whether it returns or throws, a classification puts no other groups into the map. -/
theorem classifyCallbackGroups_within (base : BaseExecutor) {e : ExecutorState}
    {handles : UnorderedMap Ptr Nat} (loaded : e.callbackHandleToThreadgroupId = some handles)
    (within : e.WaitsWithin handles) :
    (∀ e', e.classifyCallbackGroups base = .ok e' → e'.WaitsWithin handles) ∧
      ∀ failed, e.classifyCallbackGroups base = .error failed → failed.executor.WaitsWithin handles := by
  obtain ⟨returns, throws⟩ := Loop.foldlM_rule (WaitsWithin handles)
    (fun failed : Failed => failed.executor.WaitsWithin handles) e.pendingWeakGroupsToNodes
    (fun s entry _ within => @classifyGroup_within base handles s entry within) within
  unfold classifyCallbackGroups
  simp only [loaded]
  cases ran : e.pendingWeakGroupsToNodes.foldlM (classifyGroup base handles) e with
  | error failed => exact ⟨nofun, fun failed' threw => by cases threw; exact throws _ ran⟩
  | ok s => exact ⟨fun e' returned => by cases returned; exact returns s ran, nofun⟩

end ExecutorState

/-! ## One call at a time -/

/-- The handle map and the threadgroups are one export. -/
structure ExecutorState.Timed (e : ExecutorState) (timing : TimingExport) : Prop where
  exported : ∃ final : CallbackRegistry, final.Sound ∧ final.Exports timing
  handles : e.callbackHandleToThreadgroupId = some timing.callbackHandleToThreadgroupId
  threadGroups : e.threadGroups = some timing.threadgroupAttributes

theorem ExecutorState.Timed.of_same {e e' : ExecutorState} {timing : TimingExport} (timed : e.Timed timing)
    (same : SameTiming e e') : e'.Timed timing :=
  ⟨timed.exported, same.handles.trans timed.handles, same.threadGroups.trans timed.threadGroups⟩

/-- What is waited for is within the handle map, unless there is no threadgroup in it. -/
structure ExecutorState.Within (e : ExecutorState) : Prop where
  untimed : e.threadGroups = none → e.weakGroupsToNodes = []
  timed : ∀ handles threadGroups, e.callbackHandleToThreadgroupId = some handles →
    e.threadGroups = some threadGroups → threadGroups ≠ ∅ → e.WaitsWithin handles

/-- There are no worker groups, or the maps belong together as after a single start-up. -/
def ExecutorState.InStep (e : ExecutorState) : Prop :=
  e.threadGroupIdWorkerMap = ∅ ∨ ∃ final timing, e.Started final timing

/-- The flag is set while a call is inside, and there is one at most; the maps belong together,
and with them the groups that are waited for until a call has got to its loop. -/
structure LiveExecutor.Serial (x : LiveExecutor) : Prop where
  single : x.calls.countP SpinPoint.isInside = if x.spinning then 1 else 0
  timed : x.state.threadGroups = none ∨ ∃ timing, x.state.Timed timing
  within : x.calls.countP SpinPoint.isStarted = 0 → x.state.Within

namespace LiveExecutor

variable {x : LiveExecutor}

theorem Serial.construct (userChains : List UserChain) : (construct userChains).Serial :=
  ⟨rfl, Or.inl rfl, fun _ => ⟨fun _ => rfl, fun _ _ _ => nofun⟩⟩

theorem Serial.sole (serial : x.Serial) : x.calls.countP SpinPoint.isInside ≤ 1 := by
  rw [serial.single]
  split <;> decide

/-- The call that moves on is the one inside. -/
theorem Serial.inside (serial : x.Serial) {call : Nat} {point : SpinPoint} (at_ : x.calls[call]? = some point)
    (inside : point.isInside = true) : x.spinning = true := by
  by_contra free
  have none_ := serial.single
  rw [if_neg free, List.countP_eq_zero] at none_
  exact none_ point (List.mem_of_getElem? at_) inside

theorem Serial.single_setCall (serial : x.Serial) {call : Nat} {point : SpinPoint}
    (at_ : x.calls[call]? = some point) (inside : point.isInside = true) {point' : SpinPoint}
    (inside' : point'.isInside = true) :
    (x.calls.set call point').countP SpinPoint.isInside = if x.spinning then 1 else 0 := by
  have counted := ThreadPool.countP_set at_ point' SpinPoint.isInside
  rw [inside, inside'] at counted
  exact (Nat.add_right_cancel counted).trans serial.single

theorem Serial.single_exit (serial : x.Serial) {call : Nat} {point : SpinPoint}
    (at_ : x.calls[call]? = some point) (inside : point.isInside = true) {point' : SpinPoint}
    (outside : point'.isInside = false) : (x.calls.set call point').countP SpinPoint.isInside = 0 := by
  have counted := ThreadPool.countP_set at_ point' SpinPoint.isInside
  rw [inside, outside, serial.single, serial.inside at_ inside] at counted
  exact Nat.add_right_cancel counted

/-- As long as no call gets past start-up, nothing has to be said of one that has. -/
theorem Serial.within_setCall (serial : x.Serial) {call : Nat} {point : SpinPoint}
    (at_ : x.calls[call]? = some point) (behind : point.isStarted = false) {point' : SpinPoint}
    (none_ : (x.calls.set call point').countP SpinPoint.isStarted = 0) : x.state.Within := by
  have counted := ThreadPool.countP_set at_ point' SpinPoint.isStarted
  rw [none_, behind] at counted
  exact serial.within (Nat.eq_zero_of_add_eq_zero_right counted.symm)

theorem started_setCall {call : Nat} {point point' : SpinPoint} (at_ : x.calls[call]? = some point)
    (started : point'.isStarted = true) : (x.calls.set call point').countP SpinPoint.isStarted ≠ 0 := fun none_ => by
  have here : (x.calls.set call point')[call]? = some point' :=
    List.getElem?_set_self (List.getElem?_eq_some_iff.1 at_).1
  exact List.countP_eq_zero.1 none_ _ (List.mem_of_getElem? here) started

theorem Serial.timed_of_loaded (serial : x.Serial) (once : x.Once) {call : Nat} {point : SpinPoint}
    (at_ : x.calls[call]? = some point) (behind : point = .loaded ∨ point = .classified) :
    ∃ timing, x.state.Timed timing :=
  serial.timed.resolve_left fun none_ => once.timed point (List.mem_of_getElem? at_) behind none_

/-- What the call has classified is within what it has loaded, whether it returns or throws. -/
theorem Serial.classify (serial : x.Serial) (once : x.Once) {call : Nat} (at_ : x.calls[call]? = some .loaded) {point' : SpinPoint}
    {view : WeakCallbackGroupsToNodesMap} {base : BaseExecutor} {state : ExecutorState}
    (same : ExecutorState.SameTiming { x.state with pendingWeakGroupsToNodes := view } state)
    (left_ : { x.state with pendingWeakGroupsToNodes := view }.classifyCallbackGroups base = .ok state ∨
      ∃ failed, { x.state with pendingWeakGroupsToNodes := view }.classifyCallbackGroups base = .error failed ∧
        failed.executor = state)
    (none_ : (x.calls.set call point').countP SpinPoint.isStarted = 0) : state.Within := by
  have within := serial.within_setCall at_ rfl none_
  refine ⟨fun untimed => absurd (same.threadGroups.symm.trans untimed)
    (once.timed _ (List.mem_of_getElem? at_) (Or.inl rfl)), fun handles threadGroups isHandles isGroups some_ => ?_⟩
  rw [same.handles] at isHandles
  rw [same.threadGroups] at isGroups
  obtain ⟨returns, throws⟩ := ExecutorState.classifyCallbackGroups_within base
    (e := { x.state with pendingWeakGroupsToNodes := view }) isHandles
    (within.timed handles threadGroups isHandles isGroups some_)
  rcases left_ with returned | ⟨failed, threw, rfl⟩
  · exact returns _ returned
  · exact throws _ threw

theorem Serial.acts {p p' : Process} {id : Nat} {action : ExecutorAction} (serial : x.Serial) (once : x.Once)
    (sound : ∀ r, p.registry = some r → r.Sound)
    (before : p.registry ≠ some {} → x.state.threadGroups = none) (notCancelled : action ≠ .cancel)
    (acts : Process.Acts p id x action p') {x' : LiveExecutor} (found : p'.executors id = some x') :
    x'.Serial := by
  cases acts with
  | refused why => cases Process.setExecutor_self found; exact serial
  | added free => cases Process.setExecutor_self found; exact ⟨serial.single, serial.timed, serial.within⟩
  | spin =>
      cases Process.setExecutor_self found
      refine ⟨?_, serial.timed, fun none_ => serial.within ?_⟩
      · show (x.calls ++ _).countP _ = 1
        rw [List.countP_append, serial.single]
        cases x.spinning <;> rfl
      · change (x.calls ++ _).countP _ = 0 at none_
        rw [List.countP_append] at none_
        exact Nat.eq_zero_of_add_eq_zero_right none_
  | loadThrew at_ threw =>
      cases Process.setExecutor_self found
      exact ⟨serial.single_exit at_ rfl rfl, serial.timed, fun none_ => serial.within_setCall at_ rfl none_⟩
  | @loaded call locks preRegistered order stack timing registry at_ returned =>
      cases Process.setExecutor_self found
      refine ⟨serial.single_setCall at_ rfl rfl, Or.inr ⟨timing, load_exports sound returned, rfl, rfl⟩,
        fun none_ => ⟨nofun, fun handles threadGroups isHandles isGroups some_ => ?_⟩⟩
      by_cases emptied : p.registry = some {}
      · rw [emptied, load_emptied] at returned
        cases returned
        cases isGroups
        exact absurd rfl some_
      · -- the first allocation that returns: nothing has been classified yet
        intro entry member
        change entry ∈ x.state.weakGroupsToNodes at member
        rw [(serial.within_setCall at_ rfl none_).untimed (before emptied)] at member
        cases member
  | @classifyThrew call locks base failed at_ threw =>
      cases Process.setExecutor_self found
      obtain ⟨timing, timed⟩ := serial.timed_of_loaded once at_ (Or.inl rfl)
      have same := (ExecutorState.classifyCallbackGroups_timing _ _).2 _ threw
      exact ⟨serial.single_exit at_ rfl rfl,
        Or.inr ⟨timing, timed.of_same ⟨same.handles, same.threadGroups, same.workers, same.spawned⟩⟩,
        serial.classify once at_ same (Or.inr ⟨failed, threw, rfl⟩)⟩
  | @classified call locks base state at_ returned =>
      cases Process.setExecutor_self found
      obtain ⟨timing, timed⟩ := serial.timed_of_loaded once at_ (Or.inl rfl)
      have same := (ExecutorState.classifyCallbackGroups_timing _ _).1 _ returned
      exact ⟨serial.single_setCall at_ rfl rfl,
        Or.inr ⟨timing, timed.of_same ⟨same.handles, same.threadGroups, same.workers, same.spawned⟩⟩,
        serial.classify once at_ same (Or.inl returned)⟩
  | spawnThrew at_ threw =>
      cases Process.setExecutor_self found
      rw [ExecutorState.spawnWorkerGroups_threw threw
        (once.timed _ (List.mem_of_getElem? at_) (Or.inr rfl))]
      exact ⟨serial.single_exit at_ rfl rfl, serial.timed, fun none_ => serial.within_setCall at_ rfl none_⟩
  | @spawned call _ state at_ returned =>
      cases Process.setExecutor_self found
      obtain ⟨timing, timed⟩ := serial.timed_of_loaded once at_ (Or.inr rfl)
      obtain ⟨-, threadGroups, -, rfl⟩ := ExecutorState.spawnWorkerGroups_returned returned
      exact ⟨serial.single_setCall at_ rfl rfl, Or.inr ⟨timing, timed.exported, timed.handles, timed.threadGroups⟩,
        fun none_ => absurd none_ (started_setCall at_ rfl)⟩
  | waited at_ ofNodes =>
      cases Process.setExecutor_self found
      have started : x.calls.countP SpinPoint.isStarted ≠ 0 := fun none_ =>
        List.countP_eq_zero.1 none_ _ (List.mem_of_getElem? at_) rfl
      exact ⟨serial.single, serial.timed.imp_right fun ⟨timing, timed⟩ =>
        ⟨timing, timed.exported, timed.handles, timed.threadGroups⟩, fun none_ => absurd none_ started⟩
  | left at_ =>
      cases Process.setExecutor_self found
      exact ⟨serial.single_exit at_ rfl rfl, serial.timed, fun none_ => absurd none_ (started_setCall at_ rfl)⟩
  | cancelled => exact absurd rfl notCancelled
  | destroyed outside => simp only [Function.update_self, reduceCtorEq] at found

/-- A call that gets to its loop has the maps in step. -/
theorem Serial.inStep (serial : x.Serial) (once : x.Once) {call : Nat} (at_ : x.calls[call]? = some .classified)
    {base : BaseExecutor} {state : ExecutorState} (returned : x.state.spawnWorkerGroups base = .ok state) :
    state.InStep := by
  obtain ⟨timing, timed⟩ := serial.timed_of_loaded once at_ (Or.inr rfl)
  obtain ⟨final, sound, exports⟩ := timed.exported
  have first := (ExecutorState.spawnWorkerGroups_returned returned).1
  obtain ⟨handles, groups, waited, workers⟩ := ExecutorState.spawnWorkerGroups_ok returned timed.threadGroups
    (once.unspawned first) (exports.tgId sound)
  by_cases some_ : timing.threadgroupAttributes = ∅
  · refine Or.inl (UnorderedMap.SameEntries.eq_empty (R := fun v w => v = w) fun id => ?_)
    rw [workers, some_]
    exact .none
  · have none_ : x.calls.countP SpinPoint.isStarted = 0 := by
      rw [once.started, first]
      rfl
    have within := (serial.within none_).timed _ _ timed.handles timed.threadGroups some_
    refine Or.inr ⟨final, timing, sound, exports, handles.trans timed.handles, groups.trans timed.threadGroups,
      workers, ?_⟩
    rw [waited]
    exact within

/-- While a call is in the loop no other one is inside. -/
theorem Serial.only (serial : x.Serial) {call call' : Nat} {point : SpinPoint}
    (looping : x.calls[call]? = some .looping) (at_ : x.calls[call']? = some point)
    (inside : point.isInside = true) : call' = call := by
  by_contra other
  have stays : .looping ∈ x.calls.set call' (.left none) := by
    refine List.mem_of_getElem? (i := call) ?_
    rw [List.getElem?_set_ne other]
    exact looping
  have none_ : (x.calls.set call' (.left none)).countP SpinPoint.isInside = 0 :=
    serial.single_exit at_ inside rfl
  exact List.countP_eq_zero.1 none_ _ stays rfl

end LiveExecutor

/-- A step that neither cancels the executor nor takes the call out of its loop. -/
def ProcessLabel.Undisturbing (id call : Nat) (label : ProcessLabel) : Prop :=
  label ≠ .executor id .cancel ∧ ∀ thrown, label ≠ .executor id (.leave call thrown)

/-- One of the waits adds the group. -/
def AddedBy (id call : Nat) (labels : List ProcessLabel) (entry : WeakGroupEntry) : Prop :=
  ∃ more expired, ProcessLabel.executor id (.waitForWork call more expired) ∈ labels ∧
    ∃ pair ∈ more, entry = ⟨some pair.1, some pair.2⟩

namespace Process

variable {p : Process} {id call : Nat}

/-- The histories without a `cancel` of the executor. -/
abbrev Uncancelled (id : Nat) : Process → Prop :=
  system.ReachableWhile fun _ label => label ≠ .executor id .cancel

theorem serial_reachable (reachable : Uncancelled id p) {x : LiveExecutor} (at_ : p.executors id = some x) :
    x.Serial :=
  executors_invariant (fun id' _ x => id' = id → x.Serial) (fun _ _ userChains _ => .construct userChains)
    (fun _ _ _ _ serial => serial)
    (fun p₁ id' x₁ action p' reachable₁ at₁ uncancelled serial acts x' found same =>
      (serial same).acts (once_reachable reachable₁ at₁) (registry_sound reachable₁)
        (fun before => (untimed_before reachable₁.reachable before at₁).1)
        (fun cancels => uncancelled (by rw [same, cancels])) acts found)
    reachable id x at_ rfl

/-- The call is in the loop, on this state but for the groups that are waited for: those there
or added. -/
def InLoop (id call : Nat) (e : ExecutorState) (added : WeakGroupEntry → Prop) (p : Process) : Prop :=
  ∃ x, p.executors id = some x ∧ x.calls[call]? = some .looping ∧
    x.state = { e with weakGroupsToNodes := x.state.weakGroupsToNodes } ∧
    ∀ entry ∈ x.state.weakGroupsToNodes, entry ∈ e.weakGroupsToNodes ∨ added entry

theorem InLoop.step {e : ExecutorState} {labels : List ProcessLabel} {p' : Process} {label : ProcessLabel}
    (reachable : Uncancelled id p) (inLoop : InLoop id call e (AddedBy id call labels) p) (listed : label ∈ labels)
    (undisturbing : label.Undisturbing id call) (stepped : system.step p label = some p') :
    InLoop id call e (AddedBy id call labels) p' := by
  obtain ⟨x, at_, looping, same, waited⟩ := inLoop
  have serial := serial_reachable reachable at_
  cases step_cases stepped with
  | @construct id' userChains free =>
      have other : id ≠ id' := by
        rintro rfl
        rw [free] at at_
        cases at_
      exact ⟨x, (Function.update_of_ne other _ p.executors).trans at_, looping, same, waited⟩
  | @acts id' x' action _ at' moves =>
      by_cases here : id = id'
      · subst here
        cases at_.symm.trans at'
        cases moves with
        | refused why => exact ⟨x, Function.update_self .., looping, same, waited⟩
        | added free => exact ⟨_, Function.update_self .., looping, same, waited⟩
        | spin =>
            refine ⟨_, Function.update_self .., ?_, same, waited⟩
            exact (List.getElem?_append_left (List.getElem?_eq_some_iff.1 looping).1).trans looping
        | @waited call' more expired at_ ofNodes =>
            cases serial.only looping at_ rfl
            refine ⟨_, Function.update_self .., looping, ?_, fun entry member => ?_⟩
            · rw [LiveExecutor.waitForWork, same]
            · rcases LiveExecutor.mem_waitForWork member with old | new
              · exact waited entry old
              · exact Or.inr ⟨more, expired, listed, new⟩
        | left at_ =>
            cases serial.only looping at_ rfl
            exact absurd rfl (undisturbing.2 _)
        | cancelled => exact absurd rfl undisturbing.1
        | destroyed outside => exact nomatch outside _ (List.mem_of_getElem? looping)
        | loadThrew at_ | loaded at_ | classifyThrew at_ | classified at_ | spawnThrew at_ | spawned at_ =>
            cases serial.only looping at_ rfl
            cases looping.symm.trans at_
      · exact ⟨x, (moves.elsewhere here).trans at_, looping, same, waited⟩
  | otherTakes free => exact ⟨x, at_, looping, same, waited⟩
  | otherGivesUp has => exact ⟨x, at_, looping, same, waited⟩

/-- After a `cancel` that the loop has not noticed, a second call of `spin` empties the
handle map under it. -/
example : ((system.run .start (sampleExecutor 0 100 ++ sampleSpin 0 0 ++ .executor 0 .cancel ::
    (sampleSpin 0 1).take 2)).bind fun p => (p.executors 0).map fun x =>
      (x.calls, x.state.callbackHandleToThreadgroupId.map (·.keys), x.state.threadGroupIdWorkerMap.keys)) =
    some ([.looping, .loaded], some [], [1]) := by decide

end Process

end PreemptiveExecutor
