/-
# Executor.SharedRegistry — the calls of `load_timing_info` in one process

`CallbackRegistry` is a singleton: a function-local static, constructed from the
arguments of the first call whose constructor completes and used by every call
after it.  An allocation that returns has emptied it.

So over any sequence of calls, each with its own names, groups and chains
(`loadAll_results`): up to the first completed construction a call gets what a
fresh registry of its own would give; after it the arguments of a call do not
matter; and after a call that has returned, every call gets an empty export.
-/
import PreemptiveExecutor.Executor.Lookups

namespace PreemptiveExecutor

open Theory

set_option autoImplicit false

/-- What one call of `load_timing_info` finds: the names registered so far, the
pending groups and chains of its executor, and the iteration order and stack of
its allocation. -/
structure LoadCall where
  preRegistered : PreRegisteredNames
  pendingWeakGroupsToNodes : WeakCallbackGroupsToNodesMap
  userChains : List UserChain
  order : IterationOrder
  stack : Nat

/-- The result of a call, and the static that it leaves. -/
abbrev Loaded := Except Error TimingExport × Option CallbackRegistry

def allocate (call : LoadCall) (registry : CallbackRegistry) : Loaded :=
  match registry.callbackThreadgroupAllocation call.order call.stack with
  | .error thrown => (.error thrown.error, some thrown.registry)
  | .ok (timing, registry) => (.ok timing, some registry)

/-- A constructor that throws leaves the static uninitialised. -/
def load (singleton : Option CallbackRegistry) (call : LoadCall) : Loaded :=
  match singleton with
  | some registry => allocate call registry
  | none =>
      match CallbackRegistry.construct call.preRegistered call.pendingWeakGroupsToNodes call.userChains with
      | .error error => (.error error, none)
      | .ok registry => allocate call registry

/-- What a registry built from the call's own arguments returns. -/
def LoadCall.fresh (call : LoadCall) : Except Error TimingExport := (load none call).1

/-- The results of a sequence of calls. -/
def loadAll : Option CallbackRegistry → List LoadCall → List (Except Error TimingExport)
  | _, [] => []
  | singleton, call :: calls => (load singleton call).1 :: loadAll (load singleton call).2 calls

/-- The static after a sequence of calls. -/
def leftBy (singleton : Option CallbackRegistry) (calls : List LoadCall) : Option CallbackRegistry :=
  calls.foldl (fun singleton call => (load singleton call).2) singleton

/-- `load_timing_info` of an executor is such a call. -/
theorem loadTimingInfo_load (env : Environment) (singleton : Option CallbackRegistry) (e : ExecutorState) :
    e.loadTimingInfo env singleton =
      match load singleton ⟨env.preRegistered, e.pendingWeakGroupsToNodes, e.userChains, env.order, env.stack⟩ with
      | (.ok timing, some registry) =>
          .ok ({ e with
            callbackHandleToThreadgroupId := some timing.callbackHandleToThreadgroupId
            threadGroups := some timing.threadgroupAttributes }, registry)
      | (.ok _, none) => .error .undefinedBehaviour
      | (.error error, _) => .error error := by
  unfold ExecutorState.loadTimingInfo ExecutorState.getInstance load allocate
  cases singleton with
  | some registry =>
      simp only
      cases registry.callbackThreadgroupAllocation env.order env.stack <;> rfl
  | none =>
      cases CallbackRegistry.construct env.preRegistered e.pendingWeakGroupsToNodes e.userChains with
      | error error => rfl
      | ok registry =>
          simp only
          cases registry.callbackThreadgroupAllocation env.order env.stack <;> rfl

/-! ## The emptied registry -/

namespace CallbackRegistry

theorem callbackThreadgroupAllocation_clears {order : IterationOrder} {stack : Nat} {r r' : CallbackRegistry}
    {timing : TimingExport} (returned : r.callbackThreadgroupAllocation order stack = .ok (timing, r')) :
    r' = {} := by
  obtain ⟨s, counted, -, -, exported⟩ := callbackThreadgroupAllocation_ok returned
  unfold exportTimingInformation at exported
  simp only [exportHandles_eq] at exported
  split at exported
  · cases exported
  · cases exported
    rfl

/-- An allocation on the emptied registry returns an empty export. -/
theorem callbackThreadgroupAllocation_empty (order : IterationOrder) (stack : Nat) :
    callbackThreadgroupAllocation order stack {} = .ok ({}, {}) := by
  have noCallbacks : order.adjacencyList ∅ = ∅ :=
    UnorderedMap.SameEntries.eq_empty (order.adjacencyList_same ∅)
  have noThreadgroups : order.threadgroupAdjacencyList ∅ = ∅ :=
    UnorderedMap.SameEntries.eq_empty (order.threadgroupAdjacencyList_same ∅)
  unfold callbackThreadgroupAllocation
  simp only [noCallbacks]
  show countThreads stack { ({} : CallbackRegistry) with
    threadgroupAdjacencyList := order.threadgroupAdjacencyList ∅ } >>= exportTimingInformation = _
  rw [noThreadgroups]
  rfl

end CallbackRegistry

/-! ## Sequences of calls -/

theorem loadAll_append (before after : List LoadCall) :
    ∀ singleton : Option CallbackRegistry,
      loadAll singleton (before ++ after) = loadAll singleton before ++ loadAll (leftBy singleton before) after := by
  induction before with
  | nil => intro singleton; rfl
  | cons call before ih =>
      intro singleton
      show _ :: loadAll _ (before ++ after) = _
      rw [ih]
      rfl

theorem length_loadAll (calls : List LoadCall) :
    ∀ singleton : Option CallbackRegistry, (loadAll singleton calls).length = calls.length := by
  induction calls with
  | nil => intro singleton; rfl
  | cons call calls ih => intro singleton; exact congrArg (· + 1) (ih _)

theorem allocate_some (call : LoadCall) (registry : CallbackRegistry) : (allocate call registry).2 ≠ none := by
  unfold allocate
  split <;> exact nofun

/-- The call's own registry can be constructed. -/
def LoadCall.Constructs (call : LoadCall) : Prop :=
  ∃ registry, CallbackRegistry.construct call.preRegistered call.pendingWeakGroupsToNodes call.userChains =
    .ok registry

/-- The static is there after the first completed construction, and not before. -/
theorem leftBy_isSome (calls : List LoadCall) :
    ∀ singleton : Option CallbackRegistry,
      (leftBy singleton calls).isSome ↔ singleton.isSome ∨ ∃ call ∈ calls, call.Constructs := by
  induction calls with
  | nil => intro singleton; simp [leftBy]
  | cons call calls ih =>
      intro singleton
      show (leftBy (load singleton call).2 calls).isSome ↔ _
      rw [ih, List.exists_mem_cons_iff, ← or_assoc]
      apply or_congr_left
      cases singleton with
      | some registry =>
          have kept := allocate_some call registry
          rw [← Option.isSome_iff_ne_none] at kept
          simp [load, kept]
      | none =>
          unfold load LoadCall.Constructs
          cases CallbackRegistry.construct call.preRegistered call.pendingWeakGroupsToNodes call.userChains with
          | error error => simp
          | ok registry =>
              have kept := allocate_some call registry
              rw [← Option.isSome_iff_ne_none] at kept
              simp [kept]

theorem load_emptied (call : LoadCall) : load (some {}) call = (.ok {}, some {}) := by
  show allocate call {} = _
  unfold allocate
  rw [CallbackRegistry.callbackThreadgroupAllocation_empty]

/-- A call that returns has emptied the registry. -/
theorem load_returned {singleton : Option CallbackRegistry} {call : LoadCall} {timing : TimingExport}
    (returned : (load singleton call).1 = .ok timing) : (load singleton call).2 = some {} := by
  have cleared : ∀ registry, (allocate call registry).1 = .ok timing → (allocate call registry).2 = some {} := by
    intro registry returned
    unfold allocate at returned ⊢
    cases allocation : registry.callbackThreadgroupAllocation call.order call.stack with
    | error thrown => rw [allocation] at returned; cases returned
    | ok result => simp only [CallbackRegistry.callbackThreadgroupAllocation_clears allocation]
  unfold load at returned ⊢
  cases singleton with
  | some registry => exact cleared registry returned
  | none =>
      simp only at returned ⊢
      split at returned
      · cases returned
      · exact cleared _ returned

/-- Once emptied, the registry stays empty. -/
theorem leftBy_returned (calls : List LoadCall) :
    ∀ singleton : Option CallbackRegistry,
      (singleton = some {} ∨ ∃ timing, .ok timing ∈ loadAll singleton calls) → leftBy singleton calls = some {} := by
  induction calls with
  | nil =>
      rintro singleton (emptied | ⟨timing, member⟩)
      · exact emptied
      · cases member
  | cons call calls ih =>
      rintro singleton (rfl | ⟨timing, member⟩)
      · exact ih _ (Or.inl (congrArg Prod.snd (load_emptied call)))
      · rcases List.mem_cons.1 member with here | later
        · exact ih _ (Or.inl (load_returned here.symm))
        · exact ih _ (Or.inr ⟨timing, later⟩)

/-- **What a call gets, over all histories**: what a fresh registry of its own
would give, if no earlier call has completed the construction; what the one
registry gives as it was left, whatever the names, groups and chains of the call,
if one has; and an empty export, if an earlier call has returned. -/
theorem loadAll_results (before after : List LoadCall) (call : LoadCall) :
    ∃ result, (loadAll none (before ++ call :: after))[before.length]? = some result ∧
      ((∀ earlier ∈ before, ¬ earlier.Constructs) → result = call.fresh) ∧
      ((∃ earlier ∈ before, earlier.Constructs) →
        ∀ call', call'.order = call.order → call'.stack = call.stack →
          (loadAll none (before ++ call' :: after))[before.length]? = some result) ∧
      ((∃ timing, .ok timing ∈ loadAll none before) → result = .ok {}) := by
  have at_ : ∀ call' : LoadCall, (loadAll none (before ++ call' :: after))[before.length]? =
      some (load (leftBy none before) call').1 := by
    intro call'
    rw [loadAll_append, List.getElem?_append_right (by rw [length_loadAll]), length_loadAll, Nat.sub_self]
    rfl
  refine ⟨_, at_ call, fun none_ => ?_, fun some_ call' sameOrder sameStack => ?_, fun returned => ?_⟩
  · have absent : leftBy none before = none := by
      rw [← Option.not_isSome_iff_eq_none, leftBy_isSome]
      rintro (there | ⟨earlier, member, constructs⟩)
      · cases there
      · exact none_ earlier member constructs
    rw [absent]
    rfl
  · obtain ⟨registry, present⟩ := Option.isSome_iff_exists.1 ((leftBy_isSome before none).2 (Or.inr some_))
    rw [at_, present]
    simp only [load, allocate, sameOrder, sameStack]
  · rw [leftBy_returned before none (Or.inr returned), load_emptied]

/-! ### One executor, spun twice -/

def sampleLoad : LoadCall :=
  ⟨sampleEnvironment.preRegistered, samplePending, sampleChains, .stored, 8⟩

/-- **The second call does not get what its own registry would give.** -/
theorem loadAll_notFresh : ¬ ∀ calls : List LoadCall, loadAll none calls = calls.map LoadCall.fresh := by
  intro fresh
  have second := congrArg
    (fun results : List (Except Error TimingExport) => results[1]?.map fun result =>
      result.toOption.map fun timing => timing.callbackHandleToThreadgroupId.lookup 11)
    (fresh [sampleLoad, sampleLoad])
  revert second
  decide

end PreemptiveExecutor
