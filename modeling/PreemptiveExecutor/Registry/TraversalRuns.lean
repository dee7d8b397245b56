/-
# Registry.TraversalRuns — the root loop call by call

On a registry as the constructor leaves it, over any callback graph: the calls of
`recursive_callback_traversal` end, each callback gets past the visited check at most
once, and the threadgroup it is given there is the one it has from then on, through the
priority loop and the thread-count loop to the export
(`traversal_terminates_final`).
-/
import PreemptiveExecutor.Theory.VisitRun
import PreemptiveExecutor.Registry.RepeatedChain

namespace PreemptiveExecutor

open Theory
open Theory.DepthFirst (Run)

set_option autoImplicit false

namespace TraversalState

variable {s s' : TraversalState} {call : Call} {calls pending : List Call} {name : String} {info : CallbackInfo}

/-- The call gets past the visited check: its callback is registered and has no
threadgroup. -/
def passesCheck (made : TraversalState × Call) : Bool :=
  (made.1.callbackMap.lookup made.2.callbackName).any fun info => info.threadgroupId = 0

/-- The callbacks for which calls got past the visited check. -/
def passed (made : List (TraversalState × Call)) : List String :=
  (made.filter passesCheck).map fun call => call.2.callbackName

theorem not_assigned_of_passesCheck (passes : passesCheck (s, call) = true) : ¬ s.Assigned call.callbackName := by
  rintro ⟨info, found, nonzero⟩
  rw [passesCheck, found] at passes
  exact nonzero (of_decide_eq_true passes)

/-- A visit that throws has come to a callback that is not registered. -/
theorem visit_error {thrown : Thrown} (threw : visit s call = .error thrown) :
    call.callbackName ∉ s.callbackMap ∧
      thrown = ⟨.runtimeError "Callback not found in callback map", s.toCallbackRegistry⟩ := by
  unfold visit at threw
  cases found : s.callbackMap.lookup call.callbackName with
  | none =>
      rw [found] at threw
      cases threw
      exact ⟨AList.lookup_eq_none.1 found, rfl⟩
  | some info =>
      rw [found] at threw
      simp only at threw
      split at threw <;> cases threw

/-- A callback with a threadgroup is left alone. -/
theorem visit_keeps (visited : visit s call = .ok (s', calls)) (found : s.callbackMap.lookup name = some info)
    (assigned : info.threadgroupId ≠ 0) : s'.callbackMap.lookup name = some info := by
  rcases visit_ok visited with ⟨_, -, -, rfl, -⟩ | ⟨other, id, s₁, foundOther, unassigned, assigns, rfl, -⟩
  · exact found
  · obtain ⟨⟨id', callbacks⟩, -⟩ := assignThreadgroup_frame s call.callbackName other call.threadgroupId
      call.prevThreadgroupId
    have another : name ≠ call.callbackName := by
      rintro rfl
      rw [found] at foundOther
      cases foundOther
      exact assigned unassigned
    rw [assigns] at callbacks
    rw [pushOnlySuccessor_callbackMap, callbacks, UnorderedMap.lookup_insert_eq, if_neg another]
    exact found

theorem run_keeps {made : List (TraversalState × Call)} (run : Run visit s calls made s' pending)
    (found : s.callbackMap.lookup name = some info) (assigned : info.threadgroupId ≠ 0) :
    s'.callbackMap.lookup name = some info :=
  run.invariant (fun s _ => s.callbackMap.lookup name = some info)
    (fun _ _ _ _ _ found visited => visit_keeps visited found assigned) found

end TraversalState

namespace CallbackRegistry

open TraversalState (visit passed Call)

/-- What the rest of an allocation does with a callback after the root loop: its record
stays, and if the export returns, its handle is exported with its threadgroup. -/
structure KeptToExport (order : IterationOrder) (s : TraversalState) (name : String) (info : CallbackInfo) : Prop where
  returned : s.callbackMap.lookup name = some info
  prioritized : (prioritized order s).callbackMap.lookup name = some info
  counted : ∀ stack counted, countThreads stack (CallbackRegistry.prioritized order s) = .ok counted →
    counted.callbackMap.lookup name = some info
  failed : ∀ stack thrown, countThreads stack (CallbackRegistry.prioritized order s) = .error thrown →
    thrown.registry.callbackMap.lookup name = some info
  exported : ∀ stack counted timing left, countThreads stack (CallbackRegistry.prioritized order s) = .ok counted →
    counted.exportTimingInformation = .ok (timing, left) →
    timing.callbackHandleToThreadgroupId.lookup info.entity.rawPointer = some info.threadgroupId

theorem keptToExport {order : IterationOrder} {s : TraversalState} (sound : s.Sound) {name : String}
    {info : CallbackInfo} (found : s.callbackMap.lookup name = some info) : KeptToExport order s name info := by
  have soundP := prioritized_sound sound order
  have same := fun stack => countThreads_onlyNumThreads soundP stack
  refine ⟨found, found, fun stack counted counts => ?_, fun stack thrown failed => ?_,
    fun stack counted timing left counts exported => ?_⟩
  · rw [((same stack).1 counted counts).callbackMap]
    exact found
  · rw [((same stack).2 thrown failed).callbackMap]
    exact found
  · have kept := (same stack).1 counted counts
    obtain ⟨exports, -⟩ := exportTimingInformation_exports (kept.sound soundP) exported
    refine (exports.handles _ _).2 ⟨name, info, ?_, rfl, rfl⟩
    rw [kept.callbackMap]
    exact found

variable {preRegistered : PreRegisteredNames} {weakGroupsToNodes : WeakCallbackGroupsToNodesMap}
  {userChains : List UserChain} {r : CallbackRegistry}

/-- A call that returns is one on a registered callback. -/
theorem mem_callbackMap_of_visit {s s' : TraversalState} {call : Call} {calls : List Call}
    (visited : visit s call = .ok (s', calls)) : call.callbackName ∈ s.callbackMap := by
  rcases TraversalState.visit_ok visited with ⟨info, found, -⟩ | ⟨info, id, s₁, found, -⟩ <;>
    exact UnorderedMap.mem_iff_lookup.2 ⟨info, found⟩

/-- With a stack deeper than the number of callbacks, the root loop ends, or comes to a
callback that is not registered. -/
theorem traverseRoots_runs (sound : r.Sound) {stack : Nat} (deep : r.callbackMap.keys.length < stack) :
    (∃ s made, r.traverseRoots stack = .ok s ∧ Run visit r.start r.rootCalls made s []) ∨
      ∃ s call rest made, r.traverseRoots stack =
          .error ⟨.runtimeError "Callback not found in callback map", s.toCallbackRegistry⟩ ∧
        call.callbackName ∉ s.callbackMap ∧ Run visit r.start r.rootCalls made s (call :: rest) := by
  cases ran : r.traverseRoots stack with
  | ok s =>
      rw [traverseRoots_eq] at ran
      obtain ⟨made, run⟩ := DepthFirst.run_of_ok ran
      exact Or.inl ⟨s, made, rfl, run⟩
  | error thrown =>
      rw [traverseRoots_eq] at ran
      obtain ⟨made, s, call, rest, run, -, threw⟩ := Search.run_of_error r.callbackMap.keys.toFinset
        (search_start sound) (fun s c rest s' cs inv visited => List.mem_toFinset.2 (AList.mem_keys.1
          ((inv.2.2.mem_iff _).2 (mem_callbackMap_of_visit visited))))
        (Nat.lt_of_le_of_lt (List.toFinset_card_le _) deep) ran
      obtain ⟨missing, rfl⟩ := TraversalState.visit_error threw
      exact Or.inr ⟨s, call, rest, made, rfl, missing, run⟩

/-- A call that gets past the visited check leaves its callback with the threadgroup it
assigns. -/
theorem lookup_of_visit {s s₁ : TraversalState} {call : Call} {calls : List Call} {info assigned : CallbackInfo}
    (visited : visit s call = .ok (s₁, calls)) (found : s.callbackMap.lookup call.callbackName = some info)
    (unassigned : info.threadgroupId = 0)
    (assigns : (s.assignThreadgroup call.callbackName info call.threadgroupId
      call.prevThreadgroupId).2.callbackMap.lookup call.callbackName = some assigned) :
    s₁.callbackMap.lookup call.callbackName = some assigned := by
  rcases TraversalState.visit_ok visited with ⟨info', found', done, -⟩ |
    ⟨info', id', s₂, found', -, placed, rfl, -⟩
  · rw [found] at found'
    cases found'
    exact absurd unassigned done
  · rw [found] at found'
    cases found'
    rw [placed] at assigns
    rw [TraversalState.pushOnlySuccessor_callbackMap]
    exact assigns

/-- **The traversal ends, assigns each callback at most once, and for good.** -/
theorem traversal_terminates_final
    (constructed : construct preRegistered weakGroupsToNodes userChains = .ok r) (adjacencyList : AdjacencyList)
    (order : IterationOrder) :
    let fresh := ({ r with adjacencyList } : CallbackRegistry).arrange order
    -- the root loop ends, or comes to a callback that is not registered
    (∀ stack, r.callbackMap.keys.length < stack →
      (∃ s made, fresh.traverseRoots stack = .ok s ∧ Run visit fresh.start fresh.rootCalls made s []) ∨
      ∃ s call rest made, fresh.traverseRoots stack =
          .error ⟨.runtimeError "Callback not found in callback map", s.toCallbackRegistry⟩ ∧
        call.callbackName ∉ s.callbackMap ∧ Run visit fresh.start fresh.rootCalls made s (call :: rest)) ∧
    -- no callback gets past the visited check twice
    (∀ made s pending, Run visit fresh.start fresh.rootCalls made s pending → (passed made).Nodup) ∧
    -- group assignment is final
    (∀ made s call rest info, Run visit fresh.start fresh.rootCalls made s (call :: rest) →
      s.callbackMap.lookup call.callbackName = some info → info.threadgroupId = 0 →
      ∃ id, id ≠ 0 ∧
        (s.assignThreadgroup call.callbackName info call.threadgroupId
          call.prevThreadgroupId).2.callbackMap.lookup call.callbackName =
            some { info with threadgroupId := id } ∧
        (∀ s₁ calls made' s' pending, visit s call = .ok (s₁, calls) →
          Run visit s₁ (calls ++ rest) made' s' pending →
          s'.callbackMap.lookup call.callbackName = some { info with threadgroupId := id }) ∧
        ∀ stack s', fresh.traverseRoots stack = .ok s' →
          KeptToExport order s' call.callbackName { info with threadgroupId := id }) := by
  intro fresh
  have sound : fresh.Sound := (construct_sound constructed).rearranged _
    (UnorderedMap.sameEntries_refl (fun _ => ⟨List.Perm.refl _, List.Perm.refl _⟩) _)
  have begins := search_start sound
  refine ⟨fun stack deep => traverseRoots_runs sound deep, fun made s pending run => ?_,
    fun made s call rest info run found unassigned => ?_⟩
  · exact (Search.entered_nodup run begins TraversalState.passesCheck
      fun _ _ passes => TraversalState.not_assigned_of_passesCheck passes).1
  · have inv := run.invariant fresh.search.I fresh.search.keeps begins
    obtain ⟨id, nonzero, callbacks⟩ :=
      TraversalState.assignThreadgroup_assigns inv.1.1 found call.threadgroupId call.prevThreadgroupId
    have assigns : (s.assignThreadgroup call.callbackName info call.threadgroupId
        call.prevThreadgroupId).2.callbackMap.lookup call.callbackName =
          some { info with threadgroupId := id } := by
      rw [callbacks, AList.lookup_insert]
    have assigned := fun s₁ calls (visited : visit s call = .ok (s₁, calls)) =>
      lookup_of_visit visited found unassigned assigns
    refine ⟨id, nonzero, assigns, fun s₁ calls made' s' pending visited later => ?_, fun stack s' ran => ?_⟩
    · exact TraversalState.run_keeps later (assigned s₁ calls visited) nonzero
    · rw [traverseRoots_eq] at ran
      obtain ⟨complete, whole⟩ := DepthFirst.run_of_ok ran
      obtain ⟨made', later⟩ := run.rest_of_complete whole
      have inv' := whole.invariant fresh.search.I fresh.search.keeps begins
      cases later with
      | call visited later =>
          exact keptToExport inv'.1.1 (TraversalState.run_keeps later (assigned _ _ visited) nonzero)

/-- A callback graph in which `camera` is its own successor and that of its successor. -/
def cyclicGraph : AdjacencyList :=
  ((∅ : AdjacencyList).insert "detect" { outgoing := ["camera"], indegree := 1 }).insert "camera"
    { outgoing := ["camera", "detect"] }

theorem traversal_terminates_cyclic :
    ∃ r, construct nearFarNames nearFarGroups twoChains = .ok r ∧
      (∃ s, traverseRoots 3 ({ r with adjacencyList := cyclicGraph } : CallbackRegistry) = .ok s) ∧
      ∀ made s pending, Run visit (start { r with adjacencyList := cyclicGraph })
        (rootCalls { r with adjacencyList := cyclicGraph }) made s pending → (passed made).Nodup := by
  obtain ⟨r, constructed, runs⟩ := Loop.exists_ok_of_any
    (x := construct nearFarNames nearFarGroups twoChains)
    (p := fun r => (traverseRoots 3 ({ r with adjacencyList := cyclicGraph } : CallbackRegistry)).toOption.any
      fun _ => true) (by decide)
  obtain ⟨s, ran, -⟩ := Loop.exists_ok_of_any runs
  exact ⟨r, constructed, ⟨s, ran⟩, (traversal_terminates_final constructed cyclicGraph .stored).2.1⟩

end CallbackRegistry

end PreemptiveExecutor
