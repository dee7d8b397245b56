/-
# Registry.Export — what an allocation returns

`callbackThreadgroupAllocation_exports`: the two exported maps are read off a
sound registry with the callbacks of the one the allocation started from, so
every exported handle leads to an exported threadgroup.

`Instance` are the registries the process-wide instance can be: the constructed
one, and what a call that returned or threw has left.  All of them are sound and
hold only callbacks scanned at construction (`Instance.sound`, `Instance.scanned`).
-/
import PreemptiveExecutor.Registry.ThreadCount
import PreemptiveExecutor.Registry.Priorities

namespace PreemptiveExecutor

open Theory

set_option autoImplicit false

namespace CallbackRegistry

/-! ## The export -/

/-- The exported maps, read off a registry. -/
structure Exports (r : CallbackRegistry) (timing : TimingExport) : Prop where
  assigned : ∀ name info, r.callbackMap.lookup name = some info → info.threadgroupId ≠ 0
  handles : ∀ ptr id, timing.callbackHandleToThreadgroupId.lookup ptr = some id ↔
    ∃ name info, r.callbackMap.lookup name = some info ∧ info.entity.rawPointer = ptr ∧
      info.threadgroupId = id
  attributes : ∀ id, timing.threadgroupAttributes.lookup id =
    (r.threadgroupCallbackMap.lookup id).map attributesOf

/-- The loop over `callback_map_`: it throws at the first callback without an id. -/
theorem exportHandles_eq (r : CallbackRegistry)
    (entries : List (Sigma fun _ : String => CallbackInfo)) :
    ∀ handles : UnorderedMap Ptr Nat,
      (entries.foldlM (fun (handles : UnorderedMap Ptr Nat) entry =>
        if entry.2.threadgroupId = 0 then
          .error ⟨.runtimeError ("Callback " ++ entry.2.callbackName ++
            " has not been assigned to any threadgroup"), r⟩
        else .ok (handles.insert entry.2.entity.rawPointer entry.2.threadgroupId)) handles :
        Except Thrown (UnorderedMap Ptr Nat)) =
      match entries.find? fun entry => entry.2.threadgroupId = 0 with
      | some entry => .error ⟨.runtimeError ("Callback " ++ entry.2.callbackName ++
            " has not been assigned to any threadgroup"), r⟩
      | none => .ok (entries.foldl
          (fun handles entry => handles.insert entry.2.entity.rawPointer entry.2.threadgroupId) handles) := by
  induction entries with
  | nil => intro handles; rfl
  | cons entry entries ih =>
      intro handles
      rw [List.foldlM_cons, List.find?_cons]
      by_cases unassigned : entry.2.threadgroupId = 0
      · simp only [unassigned, ↓reduceIte, decide_true]
        rfl
      · simp only [unassigned, ↓reduceIte, decide_false]
        exact ih _

theorem exportTimingInformation_exports {r r' : CallbackRegistry} {timing : TimingExport} (sound : r.Sound)
    (exported : r.exportTimingInformation = .ok (timing, r')) : r.Exports timing ∧ r' = {} := by
  unfold exportTimingInformation at exported
  simp only [exportHandles_eq] at exported
  cases unassigned : r.callbackMap.entries.find? fun entry => entry.2.threadgroupId = 0 with
  | some entry => rw [unassigned] at exported; cases exported
  | none =>
      rw [unassigned] at exported
      cases exported
      have assigned : ∀ name info, r.callbackMap.lookup name = some info → info.threadgroupId ≠ 0 :=
        fun name info found => by
          simpa using List.find?_eq_none.1 unassigned ⟨name, info⟩ (UnorderedMap.mem_entries_iff.2 found)
      refine ⟨⟨assigned, fun ptr id => ?_, fun id => ?_⟩, rfl⟩
      · -- entities are told apart by their pointers, so no assignment is overwritten
        have agree : ∀ i ∈ r.callbackMap.entries, ∀ j ∈ r.callbackMap.entries,
            i.2.entity.rawPointer = j.2.entity.rawPointer → i.2.threadgroupId = j.2.threadgroupId := by
          rintro ⟨name, info⟩ hi ⟨name', info'⟩ hj same
          rw [UnorderedMap.mem_entries_iff] at hi hj
          obtain rfl := sound.handle name info name' info' hi hj same
          rw [hi] at hj
          cases hj
          rfl
        rw [UnorderedMap.lookup_foldl_insert _ _ _ _ agree]
        constructor
        · rintro (⟨⟨name, info⟩, member, same, value⟩ | ⟨-, found⟩)
          · exact ⟨name, info, UnorderedMap.mem_entries_iff.1 member, same, value⟩
          · cases found
        · rintro ⟨name, info, found, same, value⟩
          exact Or.inl ⟨⟨name, info⟩, UnorderedMap.mem_entries_iff.2 found, same, value⟩
      · exact UnorderedMap.lookup_emplace_entries _ ThreadGroupInfo.threadgroupId attributesOf
          (fun id group found => (sound.record id group found).1) id

theorem exportTimingInformation_error {r : CallbackRegistry} {thrown : Thrown}
    (failed : r.exportTimingInformation = .error thrown) : thrown.registry = r := by
  unfold exportTimingInformation at failed
  simp only [exportHandles_eq] at failed
  split at failed
  · cases failed; rfl
  · cases failed

/-! ## The whole allocation -/

/-- The adjacency lists may be rearranged freely. -/
theorem Sound.rearranged {r : CallbackRegistry} (sound : r.Sound) (adjacencyList : AdjacencyList)
    {threadgroupAdjacencyList : ThreadgroupAdjacencyList}
    (same : UnorderedMap.SameEntries ThreadGroupAdjacencyInfo.Same r.threadgroupAdjacencyList
      threadgroupAdjacencyList) :
    Sound { r with adjacencyList, threadgroupAdjacencyList } := by
  refine { sound with edges := fun id info found next member => ?_ }
  obtain ⟨info', found', outgoing, incoming⟩ := same.lookup_left found
  apply sound.edges id info' found' next
  rw [List.mem_cons, List.mem_append] at member ⊢
  rwa [outgoing.mem_iff, incoming.mem_iff]

/-- The registry after the priority loop, its threadgroup graph in the order in
which the thread-count loop meets it. -/
def prioritized (order : IterationOrder) (s : TraversalState) : CallbackRegistry :=
  { assignFixedPriorities s with
    threadgroupAdjacencyList := order.threadgroupAdjacencyList s.threadgroupAdjacencyList }

theorem callbackThreadgroupAllocation_eq (order : IterationOrder) (stack : Nat) (r : CallbackRegistry) :
    r.callbackThreadgroupAllocation order stack =
      (traverseRoots stack { r with adjacencyList := order.adjacencyList r.adjacencyList } >>= fun s =>
        countThreads stack (prioritized order s) >>= exportTimingInformation) := rfl

/-- An allocation returns if its three stages do. -/
theorem callbackThreadgroupAllocation_returns {order : IterationOrder} {stack : Nat} {r counted : CallbackRegistry}
    {s : TraversalState} {result : TimingExport × CallbackRegistry}
    (traversed : traverseRoots stack { r with adjacencyList := order.adjacencyList r.adjacencyList } = .ok s)
    (counts : countThreads stack (prioritized order s) = .ok counted)
    (exported : exportTimingInformation counted = .ok result) :
    r.callbackThreadgroupAllocation order stack = .ok result := by
  rw [callbackThreadgroupAllocation_eq, traversed]
  change countThreads stack (prioritized order s) >>= exportTimingInformation = _
  rw [counts]
  exact exported

/-- The three stages of an allocation that returns. -/
theorem callbackThreadgroupAllocation_ok {order : IterationOrder} {stack : Nat} {r r' : CallbackRegistry}
    {timing : TimingExport}
    (returned : r.callbackThreadgroupAllocation order stack = .ok (timing, r')) :
    ∃ s counted,
      traverseRoots stack { r with adjacencyList := order.adjacencyList r.adjacencyList } = .ok s ∧
      countThreads stack (prioritized order s) = .ok counted ∧
      exportTimingInformation counted = .ok (timing, r') := by
  rw [callbackThreadgroupAllocation_eq] at returned
  cases traversed : traverseRoots stack
      { r with adjacencyList := order.adjacencyList r.adjacencyList } with
  | error thrown => rw [traversed] at returned; cases returned
  | ok s =>
      rw [traversed] at returned
      change countThreads stack (prioritized order s) >>= exportTimingInformation = _ at returned
      cases counts : countThreads stack (prioritized order s) with
      | error thrown => rw [counts] at returned; cases returned
      | ok counted => rw [counts] at returned; exact ⟨s, counted, rfl, counts, returned⟩

/-- The stage an error comes from, and the registry it leaves. -/
theorem callbackThreadgroupAllocation_error {order : IterationOrder} {stack : Nat} {r : CallbackRegistry}
    {thrown : Thrown} (failed : r.callbackThreadgroupAllocation order stack = .error thrown) :
    traverseRoots stack { r with adjacencyList := order.adjacencyList r.adjacencyList } = .error thrown ∨
      ∃ s, traverseRoots stack { r with adjacencyList := order.adjacencyList r.adjacencyList } = .ok s ∧
        (countThreads stack (prioritized order s) = .error thrown ∨
          ∃ counted, countThreads stack (prioritized order s) = .ok counted ∧
            exportTimingInformation counted = .error thrown) := by
  rw [callbackThreadgroupAllocation_eq] at failed
  cases traversed : traverseRoots stack
      { r with adjacencyList := order.adjacencyList r.adjacencyList } with
  | error thrown' => rw [traversed] at failed; cases failed; exact Or.inl rfl
  | ok s =>
      rw [traversed] at failed
      change countThreads stack (prioritized order s) >>= exportTimingInformation = _ at failed
      refine Or.inr ⟨s, rfl, ?_⟩
      cases counts : countThreads stack (prioritized order s) with
      | error thrown' => rw [counts] at failed; cases failed; exact Or.inl rfl
      | ok counted => rw [counts] at failed; exact Or.inr ⟨counted, rfl, failed⟩

/-- The same callbacks, and everything else sound. -/
structure SoundFrom (r r' : CallbackRegistry) : Prop where
  sound : r'.Sound
  callbacks : UnorderedMap.SameEntries TraversalState.SameCallback r.callbackMap r'.callbackMap

theorem SoundFrom.of_sameCallbacks {r r' r'' : CallbackRegistry} (from_ : SoundFrom r r')
    (sound : r''.Sound) (callbacks : r''.callbackMap = r'.callbackMap) : SoundFrom r r'' :=
  ⟨sound, callbacks ▸ from_.callbacks⟩

theorem traverseRoots_sound {r : CallbackRegistry} (sound : r.Sound) (stack : Nat) :
    (∀ s, r.traverseRoots stack = .ok s → s.Sound ∧ SoundFrom r s.toCallbackRegistry) ∧
      ∀ thrown, r.traverseRoots stack = .error thrown → SoundFrom r thrown.registry := by
  obtain ⟨returns, throws⟩ := traverseRoots_invariant
    (fun s calls => TraversalState.SoundCalls s calls ∧
      UnorderedMap.SameEntries TraversalState.SameCallback r.callbackMap s.callbackMap)
    (fun s call rest s' calls ⟨inv, same⟩ visited =>
      ⟨TraversalState.visit_sound s call rest s' calls inv visited,
        same.trans (TraversalState.visit_frame visited).1 fun a b c h₁ h₂ => by
          rw [TraversalState.SameCallback, h₂, h₁]⟩)
    (r := r)
    ⟨⟨⟨sound, fun _ _ recorded => absurd recorded (OrderedMultimap.not_recorded_nil _ _)⟩,
        fun call member => by
          obtain ⟨name, -, rfl⟩ := List.mem_map.1 member
          exact ⟨Or.inl rfl, Or.inl rfl⟩⟩,
      UnorderedMap.sameEntries_refl TraversalState.SameCallback.refl _⟩ stack
  refine ⟨fun s ran => ?_, fun thrown ran => ?_⟩
  · obtain ⟨inv, same⟩ := returns s ran
    exact ⟨inv.1, inv.1.registry, same⟩
  · obtain ⟨s, calls, ⟨inv, same⟩, left_⟩ := throws thrown ran
    rw [left_]
    exact ⟨inv.1.registry, same⟩

theorem prioritized_sound {s : TraversalState} (sound : s.Sound) (order : IterationOrder) :
    (prioritized order s).Sound :=
  (assignFixedPriorities_sound sound).rearranged _ (order.threadgroupAdjacencyList_same _)

/-- The exported attributes are stored under their own id. -/
theorem Exports.tgId {r : CallbackRegistry} {timing : TimingExport} (exports : r.Exports timing) (sound : r.Sound)
    (id : Nat) (attributes : ThreadGroupAttributes)
    (found : timing.threadgroupAttributes.lookup id = some attributes) : attributes.tgId = id := by
  rw [exports.attributes] at found
  obtain ⟨group, atId, rfl⟩ := Option.map_eq_some_iff.1 found
  exact (sound.record id group atId).1

/-- **The maps an allocation returns come from a sound registry** with the
callbacks it started from, and it leaves an empty registry. -/
theorem callbackThreadgroupAllocation_exports {order : IterationOrder} {stack : Nat}
    {r r' : CallbackRegistry} {timing : TimingExport} (sound : r.Sound)
    (returned : r.callbackThreadgroupAllocation order stack = .ok (timing, r')) :
    ∃ final, SoundFrom r final ∧ final.Exports timing ∧ r' = {} := by
  obtain ⟨s, counted, traversed, counts, exported⟩ := callbackThreadgroupAllocation_ok returned
  have rearranged := sound.rearranged (order.adjacencyList r.adjacencyList)
    (UnorderedMap.sameEntries_refl (fun _ => ⟨List.Perm.refl _, List.Perm.refl _⟩) _)
  obtain ⟨soundS, from_⟩ := (traverseRoots_sound rearranged stack).1 s traversed
  have soundP := prioritized_sound soundS order
  have same := (countThreads_onlyNumThreads soundP stack).1 counted counts
  obtain ⟨exports, cleared⟩ := exportTimingInformation_exports (same.sound soundP) exported
  exact ⟨counted, ⟨same.sound soundP, same.callbackMap ▸ from_.callbacks⟩, exports, cleared⟩

/-- **A failed allocation leaves a sound registry.** -/
theorem callbackThreadgroupAllocation_leaves {order : IterationOrder} {stack : Nat} {r : CallbackRegistry}
    {thrown : Thrown} (sound : r.Sound)
    (failed : r.callbackThreadgroupAllocation order stack = .error thrown) :
    SoundFrom r thrown.registry := by
  have rearranged := sound.rearranged (order.adjacencyList r.adjacencyList)
    (UnorderedMap.sameEntries_refl (fun _ => ⟨List.Perm.refl _, List.Perm.refl _⟩) _)
  rcases callbackThreadgroupAllocation_error failed with traversal | ⟨s, traversed, later⟩
  · exact ⟨((traverseRoots_sound rearranged stack).2 thrown traversal).sound,
      ((traverseRoots_sound rearranged stack).2 thrown traversal).callbacks⟩
  · obtain ⟨soundS, from_⟩ := (traverseRoots_sound rearranged stack).1 s traversed
    have soundP := prioritized_sound soundS order
    have sameP : SoundFrom r (prioritized order s) := ⟨soundP, from_.callbacks⟩
    rcases later with counting | ⟨counted, counts, exporting⟩
    · have same := (countThreads_onlyNumThreads soundP stack).2 thrown counting
      exact sameP.of_sameCallbacks (same.sound soundP) same.callbackMap
    · have same := (countThreads_onlyNumThreads soundP stack).1 counted counts
      rw [exportTimingInformation_error exporting]
      exact sameP.of_sameCallbacks (same.sound soundP) same.callbackMap

/-! ## The constructed registry -/

/-- Every callback was found under its name in a group scanned at construction. -/
def Scanned (preRegistered : PreRegisteredNames) (weakGroupsToNodes : WeakCallbackGroupsToNodesMap)
    (r : CallbackRegistry) : Prop :=
  ∀ name info, r.callbackMap.lookup name = some info →
    preRegistered.lookup info.entity.rawPointer = some name ∧ info.callbackName = name ∧
      ∃ entry ∈ weakGroupsToNodes, entry.group = some info.callbackGroup ∧
        info.entity ∈ info.callbackGroup.collectAllPtrs

theorem Scanned.of_sameCallbacks {preRegistered : PreRegisteredNames}
    {weakGroupsToNodes : WeakCallbackGroupsToNodesMap} {r r' : CallbackRegistry}
    (scanned : Scanned preRegistered weakGroupsToNodes r) (from_ : SoundFrom r r') :
    Scanned preRegistered weakGroupsToNodes r' := by
  intro name info found
  obtain ⟨info', found', same⟩ := from_.callbacks.lookup_left found
  rw [same]
  exact scanned name info' found'

section Construct

variable {preRegistered : PreRegisteredNames} {weakGroupsToNodes : WeakCallbackGroupsToNodesMap}

/-- The callback map while the groups are scanned. -/
def ScannedMap (preRegistered : PreRegisteredNames) (weakGroupsToNodes : WeakCallbackGroupsToNodesMap)
    (callbackMap : UnorderedMap String CallbackInfo) : Prop :=
  Scanned preRegistered weakGroupsToNodes { callbackMap } ∧
    ∀ name info, callbackMap.lookup name = some info → info.threadgroupId = 0

theorem registerCallbackEntity_scanned {callbackMap : UnorderedMap String CallbackInfo}
    {group : CallbackGroup} {node : Ptr} {entity : CallbackEntity}
    (inv : ScannedMap preRegistered weakGroupsToNodes callbackMap)
    (listed : ∃ entry ∈ weakGroupsToNodes, entry.group = some group)
    (member : entity ∈ group.collectAllPtrs) :
    ScannedMap preRegistered weakGroupsToNodes
      (registerCallbackEntity preRegistered group node callbackMap entity) := by
  unfold registerCallbackEntity
  split
  · exact inv
  · rename_i callbackName named
    -- a name that is taken keeps its first entity
    have new : ∀ name info, (UnorderedMap.emplace callbackMap callbackName
        { entity, callbackGroup := group, node, callbackName }).lookup name = some info →
        callbackMap.lookup name = some info ∨
          name = callbackName ∧ info = { entity, callbackGroup := group, node, callbackName } := by
      intro name info found
      rw [UnorderedMap.lookup_emplace] at found
      split at found
      · rename_i h; cases found; exact Or.inr ⟨h.1, rfl⟩
      · exact Or.inl found
    refine ⟨fun name info found => ?_, fun name info found => ?_⟩
    · rcases new name info found with old | ⟨rfl, rfl⟩
      · exact inv.1 name info old
      · obtain ⟨entry, inGroups, isGroup⟩ := listed
        exact ⟨named, rfl, entry, inGroups, isGroup, member⟩
    · rcases new name info found with old | ⟨-, rfl⟩
      · exact inv.2 name info old
      · rfl

/-- **Rule of the group scan**, which is all that the constructor does with the
callback map: an invariant that registering an entity of a taken group keeps. -/
theorem construct_rule {userChains : List UserChain} {r : CallbackRegistry}
    (I : UnorderedMap String CallbackInfo → Prop) (start : I ∅)
    (register : ∀ callbackMap group node entity, (⟨some group, some node⟩ : WeakGroupEntry) ∈ weakGroupsToNodes →
      group.canBeTakenFrom = true → entity ∈ group.collectAllPtrs → I callbackMap →
      I (registerCallbackEntity preRegistered group node callbackMap entity))
    (constructed : construct preRegistered weakGroupsToNodes userChains = .ok r) : I r.callbackMap := by
  obtain ⟨adjacencyList, -, rfl⟩ := construct_ok constructed
  refine List.foldlRecOn weakGroupsToNodes _ start fun callbackMap inv entry listed => ?_
  obtain ⟨group, node⟩ := entry
  cases group with
  | none => exact inv
  | some group =>
      cases node with
      | none => exact inv
      | some node =>
          by_cases taken : group.canBeTakenFrom = true
          · simp only [scanGroup, taken, ↓reduceIte]
            exact List.foldlRecOn group.collectAllPtrs _ inv fun callbackMap inv entity member =>
              register callbackMap group node entity listed taken member inv
          · simp only [scanGroup, taken]
            exact inv

theorem construct_scanned {userChains : List UserChain} {r : CallbackRegistry}
    (constructed : construct preRegistered weakGroupsToNodes userChains = .ok r) :
    ScannedMap preRegistered weakGroupsToNodes r.callbackMap := by
  refine construct_rule (ScannedMap preRegistered weakGroupsToNodes)
    ⟨fun _ _ found => (nomatch found), fun _ _ found => (nomatch found)⟩
    (fun callbackMap group node entity listed _ member inv => ?_) constructed
  exact registerCallbackEntity_scanned inv ⟨_, listed, rfl⟩ member

/-- What the constructor leaves empty. -/
theorem construct_empty {userChains : List UserChain} {r : CallbackRegistry}
    (constructed : construct preRegistered weakGroupsToNodes userChains = .ok r) :
    r.threadgroupAdjacencyList = ∅ ∧ r.mutexThreadgroupMap = ∅ ∧ r.threadgroupCallbackMap = ∅ ∧
      r.nextThreadgroupId = 1 := by
  obtain ⟨adjacencyList, -, rfl⟩ := construct_ok constructed
  exact ⟨rfl, rfl, rfl, rfl⟩

theorem construct_sound {userChains : List UserChain} {r : CallbackRegistry}
    (constructed : construct preRegistered weakGroupsToNodes userChains = .ok r) : r.Sound := by
  obtain ⟨scanned, unassigned⟩ := construct_scanned constructed
  obtain ⟨noEdges, noMutexes, noRecords, first⟩ := construct_empty constructed
  refine ⟨by rw [first]; exact Nat.one_pos, fun name info found done => ?_, ?_, ?_, ?_, ?_, ?_, ?_⟩
  · exact absurd (unassigned name info found) done
  · rw [noRecords]; exact fun _ _ found => nomatch found
  · rw [noMutexes]; exact fun _ _ found => nomatch found
  · rw [noMutexes]; exact fun _ _ _ found => nomatch found
  · exact fun name info found _ done => absurd (unassigned name info found) done
  · intro name info name' info' found found' same
    have named := (scanned name info found).1
    rw [same, (scanned name' info' found').1] at named
    exact (Option.some.inj named).symm
  · rw [noEdges]; exact fun _ _ found => nomatch found

end Construct

/-! ## The process-wide instance -/

/-- The registries that the instance constructed from these names, groups and
chains can be: an allocation on it may have returned or thrown. -/
inductive Instance (preRegistered : PreRegisteredNames) (weakGroupsToNodes : WeakCallbackGroupsToNodesMap)
    (userChains : List UserChain) : CallbackRegistry → Prop where
  | constructed {r : CallbackRegistry}
      (constructed : construct preRegistered weakGroupsToNodes userChains = .ok r) :
      Instance preRegistered weakGroupsToNodes userChains r
  | returned {r r' : CallbackRegistry} {order : IterationOrder} {stack : Nat} {timing : TimingExport}
      (before : Instance preRegistered weakGroupsToNodes userChains r)
      (returned : r.callbackThreadgroupAllocation order stack = .ok (timing, r')) :
      Instance preRegistered weakGroupsToNodes userChains r'
  | threw {r r' : CallbackRegistry} {order : IterationOrder} {stack : Nat} {what : String}
      (before : Instance preRegistered weakGroupsToNodes userChains r)
      (threw : r.callbackThreadgroupAllocation order stack = .error ⟨.runtimeError what, r'⟩) :
      Instance preRegistered weakGroupsToNodes userChains r'

theorem sound_empty : Sound {} where
  nextIdPos := Nat.one_pos
  assigned := fun _ _ found => nomatch found
  record := fun _ _ found => nomatch found
  mutexRecord := fun _ _ found => nomatch found
  mutexInjective := fun _ _ _ found => nomatch found
  mutexAssigned := fun _ _ found => nomatch found
  handle := fun _ _ _ _ found => nomatch found
  edges := fun _ _ found => nomatch found

/-- **The process-wide registry is sound at every call**, and holds only
callbacks scanned when it was constructed. -/
theorem Instance.sound {preRegistered : PreRegisteredNames}
    {weakGroupsToNodes : WeakCallbackGroupsToNodesMap} {userChains : List UserChain} {r : CallbackRegistry}
    (inst : Instance preRegistered weakGroupsToNodes userChains r) :
    r.Sound ∧ Scanned preRegistered weakGroupsToNodes r := by
  induction inst with
  | constructed constructed => exact ⟨construct_sound constructed, (construct_scanned constructed).1⟩
  | returned before returned ih =>
      obtain ⟨final, -, -, rfl⟩ := callbackThreadgroupAllocation_exports ih.1 returned
      exact ⟨sound_empty, fun _ _ found => nomatch found⟩
  | threw before threw ih =>
      have left_ := callbackThreadgroupAllocation_leaves ih.1 threw
      exact ⟨left_.sound, ih.2.of_sameCallbacks left_⟩

end CallbackRegistry

end PreemptiveExecutor
