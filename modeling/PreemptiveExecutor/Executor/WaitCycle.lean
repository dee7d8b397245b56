/-
# Executor.WaitCycle — a wait cycle reports exactly the ready entities

Readiness is carried by position: the i-th handle collected is ready if `rcl_wait`
leaves the i-th slot of its array.  Then the vectors are compacted, the surviving
handles become sets, and the groups are scanned again for the entities they belong
to.  Different entities have different handles, so nothing is lost or confused on
the way back (`waitCycle_reports`), although one entity may stand in several groups
and the second scan visits groups that the first one has skipped.
-/
import PreemptiveExecutor.Executor.Lookups
import PreemptiveExecutor.Executor.MemoryStrategy

namespace PreemptiveExecutor

open Theory

set_option autoImplicit false

/-! ## The entities of a map of groups -/

def WeakGroupEntry.found (entry : WeakGroupEntry) : List CallbackEntity :=
  match entry.group, entry.node with
  | some group, some _ => if group.canBeTakenFrom then group.collectAllPtrs else []
  | _, _ => []

def WeakGroupEntry.listed (entry : WeakGroupEntry) : List CallbackEntity :=
  match entry.group with
  | none => []
  | some group => group.collectAllPtrs

theorem foundIn_iff {weakGroupsToNodes : WeakCallbackGroupsToNodesMap} {entity : CallbackEntity} :
    FoundIn weakGroupsToNodes entity ↔ entity ∈ weakGroupsToNodes.flatMap WeakGroupEntry.found := by
  rw [List.mem_flatMap]
  constructor
  · rintro ⟨group, node, listed, taken, member⟩
    refine ⟨_, listed, ?_⟩
    show entity ∈ if group.canBeTakenFrom then group.collectAllPtrs else []
    rwa [if_pos taken]
  · rintro ⟨⟨group, node⟩, listed, member⟩
    cases group with
    | none => cases member
    | some group =>
        cases node with
        | none => cases member
        | some node =>
            change entity ∈ if group.canBeTakenFrom then group.collectAllPtrs else [] at member
            by_cases taken : group.canBeTakenFrom = true
            · rw [if_pos taken] at member
              exact ⟨group, node, listed, taken, member⟩
            · rw [if_neg taken] at member
              cases member

/-- Some live group has the entity. -/
def ListedIn (weakGroupsToNodes : WeakCallbackGroupsToNodesMap) (entity : CallbackEntity) : Prop :=
  entity ∈ weakGroupsToNodes.flatMap WeakGroupEntry.listed

theorem FoundIn.listedIn {weakGroupsToNodes : WeakCallbackGroupsToNodesMap} {entity : CallbackEntity}
    (found : FoundIn weakGroupsToNodes entity) : ListedIn weakGroupsToNodes entity := by
  obtain ⟨group, node, listed, -, member⟩ := found
  exact List.mem_flatMap.2 ⟨_, listed, member⟩

theorem FoundIn.dispatched {weakGroupsToNodes : WeakCallbackGroupsToNodesMap} {type : CallbackEntityType}
    {ptr : Ptr} (found : FoundIn weakGroupsToNodes ⟨type, ptr⟩)
    (kind : type = .subscription ∨ type = .timer) :
    ∃ entry ∈ weakGroupsToNodes, ∃ group, entry.group = some group ∧ ptr ∈ group.dispatched := by
  obtain ⟨group, node, listed, -, member⟩ := found
  refine ⟨_, listed, group, rfl, List.mem_append.2 ?_⟩
  rcases kind with rfl | rfl
  · exact Or.inl (by simpa [CallbackGroup.collectAllPtrs] using member)
  · exact Or.inr (by simpa [CallbackGroup.collectAllPtrs] using member)

/-- The entities of one type, by their pointers. -/
def ptrsOf (type : CallbackEntityType) (entities : List CallbackEntity) : List Ptr :=
  (entities.filter (·.type = type)).map (·.rawPointer)

theorem mem_ptrsOf {type : CallbackEntityType} {entities : List CallbackEntity} {ptr : Ptr} :
    ptr ∈ ptrsOf type entities ↔ (⟨type, ptr⟩ : CallbackEntity) ∈ entities := by
  unfold ptrsOf
  rw [List.mem_map]
  constructor
  · rintro ⟨entity, member, rfl⟩
    obtain ⟨inEntities, same⟩ := List.mem_filter.1 member
    obtain rfl := of_decide_eq_true same
    exact inEntities
  · intro member
    exact ⟨_, List.mem_filter.2 ⟨member, decide_eq_true rfl⟩, rfl⟩

namespace MemoryStrategy

variable {handleOf : CallbackEntity → Ptr} {isReady : WaitSet → Ptr → Bool}
  {weakGroupsToNodes : WeakCallbackGroupsToNodesMap} {waitSet : WaitSet} {s : MemoryStrategy}

/-! ## Collecting -/

theorem collectEntities_eq (handleOf : CallbackEntity → Ptr)
    (weakGroupsToNodes : WeakCallbackGroupsToNodesMap) (s : MemoryStrategy) :
    (s.collectEntities handleOf weakGroupsToNodes).2 =
      (weakGroupsToNodes.flatMap WeakGroupEntry.found).foldl (collectEntity handleOf) s := by
  have step : ∀ (collected : Bool × MemoryStrategy) (entry : WeakGroupEntry),
      (collectGroup handleOf collected entry).2 = entry.found.foldl (collectEntity handleOf) collected.2 := by
    rintro collected ⟨group, node⟩
    cases group with
    | none => rfl
    | some group =>
        cases node with
        | none => rfl
        | some node =>
            simp only [collectGroup, WeakGroupEntry.found]
            split <;> rfl
  have run : ∀ (entries : WeakCallbackGroupsToNodesMap) (collected : Bool × MemoryStrategy),
      (entries.foldl (collectGroup handleOf) collected).2 =
        (entries.flatMap WeakGroupEntry.found).foldl (collectEntity handleOf) collected.2 := by
    intro entries
    induction entries with
    | nil => intro collected; rfl
    | cons entry entries ih =>
        intro collected
        rw [List.foldl_cons, ih, step, List.flatMap_cons, List.foldl_append]
  exact run weakGroupsToNodes (false, s)

/-- Each vector has the handles of its type of entities, in the order of the scan. -/
theorem foldl_collectEntity (handleOf : CallbackEntity → Ptr) (entities : List CallbackEntity) :
    ∀ s : MemoryStrategy,
      (entities.foldl (collectEntity handleOf) s).subscriptionHandles = s.subscriptionHandles ++
        (ptrsOf .subscription entities).map (fun ptr => handleOf ⟨.subscription, ptr⟩) ∧
      (entities.foldl (collectEntity handleOf) s).serviceHandles = s.serviceHandles ++
        (ptrsOf .service entities).map (fun ptr => handleOf ⟨.service, ptr⟩) ∧
      (entities.foldl (collectEntity handleOf) s).clientHandles = s.clientHandles ++
        (ptrsOf .client entities).map (fun ptr => handleOf ⟨.client, ptr⟩) ∧
      (entities.foldl (collectEntity handleOf) s).timerHandles = s.timerHandles ++
        (ptrsOf .timer entities).map (fun ptr => handleOf ⟨.timer, ptr⟩) ∧
      (entities.foldl (collectEntity handleOf) s).waitableHandles = s.waitableHandles ++ ptrsOf .waitable entities := by
  induction entities with
  | nil => intro s; simp [ptrsOf]
  | cons entity entities ih =>
      intro s
      obtain ⟨type, ptr⟩ := entity
      obtain ⟨subscriptions, services, clients, timers, waitables⟩ := ih (collectEntity handleOf s ⟨type, ptr⟩)
      rw [List.foldl_cons, subscriptions, services, clients, timers, waitables]
      cases type <;> simp [collectEntity, ptrsOf]

/-! ## What the wait leaves -/

/-- Slot `i` stands for handle `i`: the wait leaves it as it was, or nulls it. -/
def Answers (slots handles : List Ptr) : Prop :=
  ∀ (i : Nat) handle, handles[i]? = some handle → ∃ slot, slots[i]? = some slot ∧ (slot = 0 ∨ slot = handle)

/-- Some slot of the handle was left non-null. -/
def LeftNonNull (slots handles : List Ptr) (handle : Ptr) : Prop :=
  ∃ (i : Nat) (slot : Ptr), handles[i]? = some handle ∧ slots[i]? = some slot ∧ slot ≠ 0

theorem leftNonNull_cons {slot handle handle' : Ptr} {slots handles : List Ptr} :
    LeftNonNull (slot :: slots) (handle :: handles) handle' ↔
      handle = handle' ∧ slot ≠ 0 ∨ LeftNonNull slots handles handle' := by
  constructor
  · rintro ⟨i, slot', atHandle, atSlot, ready⟩
    cases i with
    | zero =>
        cases atHandle
        cases atSlot
        exact Or.inl ⟨rfl, ready⟩
    | succ i => exact Or.inr ⟨i, slot', atHandle, atSlot, ready⟩
  · rintro (⟨rfl, ready⟩ | ⟨i, slot', atHandle, atSlot, ready⟩)
    · exact ⟨0, slot, rfl, rfl, ready⟩
    · exact ⟨i + 1, slot', atHandle, atSlot, ready⟩

/-- The handles that survive the compaction are those with a slot left. -/
theorem resetNull_ok {handles : List Ptr} : ∀ {slots : List Ptr}, Answers slots handles →
    ∃ reset, resetNull handles slots = .ok reset ∧
      ∀ handle, handle ∈ eraseNull reset ↔ LeftNonNull slots handles handle := by
  induction handles with
  | nil =>
      intro slots _
      refine ⟨[], rfl, fun handle => ⟨fun member => (nomatch member), ?_⟩⟩
      rintro ⟨i, slot, atHandle, -⟩
      simp at atHandle
  | cons handle handles ih =>
      intro slots answers
      obtain ⟨slot, atSlot, value⟩ := answers 0 handle rfl
      cases slots with
      | nil => cases atSlot
      | cons slot' slots =>
          cases atSlot
          obtain ⟨reset, ran, members⟩ := @ih slots fun i handle at_ => answers (i + 1) handle at_
          refine ⟨(if slot = 0 then 0 else handle) :: reset, by rw [resetNull, ran]; rfl, fun handle' => ?_⟩
          rw [leftNonNull_cons, ← members handle']
          simp only [eraseNull, List.mem_filter, List.mem_cons, decide_eq_true_eq]
          by_cases null : slot = 0
          · rw [if_pos null]
            constructor
            · rintro ⟨rfl | member, nonNull⟩
              · exact absurd rfl nonNull
              · exact Or.inr ⟨member, nonNull⟩
            · rintro (⟨-, ready⟩ | ⟨member, nonNull⟩)
              · exact absurd null ready
              · exact ⟨Or.inr member, nonNull⟩
          · rw [if_neg null]
            -- a slot that was left is the handle itself, so the handle is not null
            have own : slot = handle := value.resolve_left null
            subst own
            constructor
            · rintro ⟨rfl | member, nonNull⟩
              · exact Or.inl ⟨rfl, null⟩
              · exact Or.inr ⟨member, nonNull⟩
            · rintro (⟨rfl, -⟩ | ⟨member, nonNull⟩)
              · exact ⟨Or.inl rfl, null⟩
              · exact ⟨Or.inr member, nonNull⟩

/-- The wait set holds the collected handles in their order, perhaps followed by
what the waitables have added, and `rcl_wait` has nulled some of it. -/
structure WaitedFor (waitSet : WaitSet) (s : MemoryStrategy) : Prop where
  subscriptions : Answers waitSet.subscriptions s.subscriptionHandles
  services : Answers waitSet.services s.serviceHandles
  clients : Answers waitSet.clients s.clientHandles
  timers : Answers waitSet.timers s.timerHandles

theorem removeNullHandles_ok (isReady : WaitSet → Ptr → Bool) (waited : WaitedFor waitSet s) :
    ∃ kept, s.removeNullHandles isReady waitSet = .ok kept ∧
      (0 ∉ kept.subscriptionHandles ∧ ∀ handle, handle ∈ kept.subscriptionHandles ↔
        LeftNonNull waitSet.subscriptions s.subscriptionHandles handle) ∧
      (0 ∉ kept.timerHandles ∧ ∀ handle, handle ∈ kept.timerHandles ↔
        LeftNonNull waitSet.timers s.timerHandles handle) := by
  obtain ⟨subscriptions, ran, survived⟩ := resetNull_ok waited.subscriptions
  obtain ⟨services, ranServices, -⟩ := resetNull_ok waited.services
  obtain ⟨clients, ranClients, -⟩ := resetNull_ok waited.clients
  obtain ⟨timers, ranTimers, survivedTimers⟩ := resetNull_ok waited.timers
  have noNull : ∀ handles, 0 ∉ eraseNull handles := fun handles => by simp [eraseNull]
  unfold removeNullHandles
  rw [ran, ranServices, ranClients, ranTimers]
  exact ⟨_, rfl, ⟨noNull _, survived⟩, noNull _, survivedTimers⟩

/-! ## Taking -/

theorem takeReady_eq_offer (handleOf : Ptr → Ptr) {d : Drain Ptr Ptr} (noNull : 0 ∉ d.wanted)
    (entity : Ptr) : takeReady handleOf d entity = d.offer handleOf entity := by
  unfold takeReady Drain.offer
  by_cases still : handleOf entity ∈ d.wanted
  · have some_ : d.wanted ≠ ∅ := Finset.ne_empty_of_mem still
    have nonNull : handleOf entity ≠ 0 := fun null => noNull (null ▸ still)
    simp [some_, still, nonNull]
  · simp [still]

theorem foldl_takeReady (handleOf : Ptr → Ptr) (entities : List Ptr) :
    ∀ d : Drain Ptr Ptr, 0 ∉ d.wanted →
      entities.foldl (takeReady handleOf) d = entities.foldl (Drain.offer handleOf) d := by
  induction entities with
  | nil => intro d _; rfl
  | cons entity entities ih =>
      intro d noNull
      rw [List.foldl_cons, List.foldl_cons, takeReady_eq_offer handleOf noNull]
      refine ih _ fun null => noNull ?_
      unfold Drain.offer at null
      split at null
      · exact Finset.mem_of_mem_erase null
      · exact null

theorem foldl_takeReady_empty (handleOf : Ptr → Ptr) (entities : List Ptr) :
    entities.foldl (takeReady handleOf) { wanted := ∅ } = { wanted := ∅ } :=
  List.foldlRecOn (motive := fun d => d = ({ wanted := ∅ } : Drain Ptr Ptr)) entities _ rfl
    fun d same entity _ => by subst same; rfl

/-- A scan of the groups treats subscriptions and timers apart. -/
theorem foldl_takeEntity (handleOf : CallbackEntity → Ptr) (entities : List CallbackEntity) :
    ∀ scan : ReadyScan, entities.foldl (takeEntity handleOf) scan =
      ⟨(ptrsOf .subscription entities).foldl (takeReady fun ptr => handleOf ⟨.subscription, ptr⟩)
          scan.subscriptions,
        (ptrsOf .timer entities).foldl (takeReady fun ptr => handleOf ⟨.timer, ptr⟩) scan.timers⟩ := by
  induction entities with
  | nil => intro scan; rfl
  | cons entity entities ih =>
      intro scan
      obtain ⟨type, ptr⟩ := entity
      rw [List.foldl_cons, ih]
      cases type <;> rfl

theorem foldl_takeGroup (handleOf : CallbackEntity → Ptr) (weakGroupsToNodes : WeakCallbackGroupsToNodesMap)
    (scan : ReadyScan) : weakGroupsToNodes.foldl (takeGroup handleOf) scan =
      (weakGroupsToNodes.flatMap WeakGroupEntry.listed).foldl (takeEntity handleOf) scan := by
  rw [List.foldl_flatMap]
  congr 1
  funext scan entry
  unfold takeGroup WeakGroupEntry.listed
  cases entry.group <;> rfl

/-- The entities of one type that the second scan reports. -/
def taken (handleOf : CallbackEntity → Ptr) (weakGroupsToNodes : WeakCallbackGroupsToNodesMap)
    (type : CallbackEntityType) (handles : List Ptr) : List Ptr :=
  ((ptrsOf type (weakGroupsToNodes.flatMap WeakGroupEntry.listed)).foldl
    (takeReady fun ptr => handleOf ⟨type, ptr⟩) { wanted := readySet handles }).found

theorem taken_of_empty {type : CallbackEntityType} {handles : List Ptr} (empty : readySet handles = ∅) :
    taken handleOf weakGroupsToNodes type handles = [] := by
  unfold taken
  rw [empty, foldl_takeReady_empty]

/-- The early exits report what the scan would have reported: nothing. -/
theorem takeReadyHandles_eq (handleOf : CallbackEntity → Ptr)
    (weakGroupsToNodes : WeakCallbackGroupsToNodesMap) (s : MemoryStrategy) :
    s.takeReadyHandles handleOf weakGroupsToNodes =
      ({ s with subscriptionHandles := [], timerHandles := [] },
        ⟨taken handleOf weakGroupsToNodes .subscription s.subscriptionHandles,
          taken handleOf weakGroupsToNodes .timer s.timerHandles⟩) := by
  unfold takeReadyHandles
  dsimp only
  split
  · rename_i none_
    obtain ⟨subscriptions, timers⟩ := (Bool.and_eq_true _ _).mp none_
    rw [List.isEmpty_iff] at subscriptions timers
    rw [subscriptions, timers, taken_of_empty rfl, taken_of_empty rfl]
    cases s
    cases subscriptions
    cases timers
    rfl
  · split
    · rename_i none_
      rw [taken_of_empty none_.1, taken_of_empty none_.2]
    · rw [foldl_takeGroup, foldl_takeEntity]
      rfl

/-- Entities of one type have handles of their own. -/
def DistinctHandles (handleOf : CallbackEntity → Ptr)
    (weakGroupsToNodes : WeakCallbackGroupsToNodesMap) : Prop :=
  ∀ type ptr ptr', ListedIn weakGroupsToNodes ⟨type, ptr⟩ → ListedIn weakGroupsToNodes ⟨type, ptr'⟩ →
    handleOf ⟨type, ptr⟩ = handleOf ⟨type, ptr'⟩ → ptr = ptr'

/-- Of distinct handles without a null, the second scan reports the entities listed for them. -/
theorem taken_iff (distinct : DistinctHandles handleOf weakGroupsToNodes) (type : CallbackEntityType)
    {handles : List Ptr} (noNull : 0 ∉ handles) :
    (taken handleOf weakGroupsToNodes type handles).Nodup ∧
      ∀ ptr, ptr ∈ taken handleOf weakGroupsToNodes type handles ↔
        ListedIn weakGroupsToNodes ⟨type, ptr⟩ ∧ handleOf ⟨type, ptr⟩ ∈ handles := by
  have inSet : ∀ handle, handle ∈ readySet handles ↔ handle ∈ handles := by
    intro handle
    simp only [readySet, eraseNull, List.mem_toFinset, List.mem_filter, decide_eq_true_eq]
    exact ⟨fun member => member.1, fun member => ⟨member, fun null => noNull (null ▸ member)⟩⟩
  have scan := Drain.foldl_offer (fun ptr => handleOf ⟨type, ptr⟩) (readySet handles)
    (ptrsOf type (weakGroupsToNodes.flatMap WeakGroupEntry.listed))
    fun ptr listed ptr' listed' same => distinct type ptr' ptr (mem_ptrsOf.1 listed') (mem_ptrsOf.1 listed) same
  unfold taken
  rw [foldl_takeReady _ _ _ fun null => noNull ((inSet 0).1 null)]
  refine ⟨scan.nodup, fun ptr => ?_⟩
  rw [scan.found_iff, inSet, mem_ptrsOf]
  exact Iff.rfl

/-- From the handles that survived back to the entities they were collected for. -/
theorem taken_reports (distinct : DistinctHandles handleOf weakGroupsToNodes) (type : CallbackEntityType)
    {slots kept : List Ptr} (noNull : 0 ∉ kept)
    (survived : ∀ handle, handle ∈ kept ↔ LeftNonNull slots
      ((ptrsOf type (weakGroupsToNodes.flatMap WeakGroupEntry.found)).map fun ptr => handleOf ⟨type, ptr⟩)
      handle) :
    (taken handleOf weakGroupsToNodes type kept).Nodup ∧
      ∀ ptr, ptr ∈ taken handleOf weakGroupsToNodes type kept ↔
        FoundIn weakGroupsToNodes ⟨type, ptr⟩ ∧ LeftNonNull slots
          ((ptrsOf type (weakGroupsToNodes.flatMap WeakGroupEntry.found)).map
            fun ptr => handleOf ⟨type, ptr⟩) (handleOf ⟨type, ptr⟩) := by
  obtain ⟨nodup, reports⟩ := taken_iff distinct type noNull
  refine ⟨nodup, fun ptr => ?_⟩
  rw [reports, survived]
  constructor
  · rintro ⟨listed, left_⟩
    refine ⟨?_, left_⟩
    obtain ⟨i, slot, atHandle, -⟩ := left_
    obtain ⟨ptr', found, same⟩ := List.mem_map.1 (List.mem_of_getElem? atHandle)
    have found' := foundIn_iff.2 (mem_ptrsOf.1 found)
    obtain rfl := distinct type ptr' ptr found'.listedIn listed same
    exact found'
  · rintro ⟨found, left_⟩
    exact ⟨found.listedIn, left_⟩

/-! ## One cycle -/

/-- The vectors that the wait set was filled from. -/
def collected (handleOf : CallbackEntity → Ptr) (weakGroupsToNodes : WeakCallbackGroupsToNodesMap) :
    MemoryStrategy :=
  (collectEntities handleOf weakGroupsToNodes {}).2

/-- The handles of the found entities of a type, in the order of the scan. -/
def foundHandles (handleOf : CallbackEntity → Ptr) (weakGroupsToNodes : WeakCallbackGroupsToNodesMap)
    (type : CallbackEntityType) : List Ptr :=
  (ptrsOf type (weakGroupsToNodes.flatMap WeakGroupEntry.found)).map fun ptr => handleOf ⟨type, ptr⟩

theorem mem_foundHandles {handleOf : CallbackEntity → Ptr} {weakGroupsToNodes : WeakCallbackGroupsToNodesMap}
    {type : CallbackEntityType} {handle : Ptr} : handle ∈ foundHandles handleOf weakGroupsToNodes type ↔
      ∃ ptr, FoundIn weakGroupsToNodes ⟨type, ptr⟩ ∧ handleOf ⟨type, ptr⟩ = handle := by
  simp only [foundHandles, List.mem_map, mem_ptrsOf, foundIn_iff]

theorem collected_eq (handleOf : CallbackEntity → Ptr) (weakGroupsToNodes : WeakCallbackGroupsToNodesMap) :
    collected handleOf weakGroupsToNodes =
      { subscriptionHandles := foundHandles handleOf weakGroupsToNodes .subscription
        serviceHandles := foundHandles handleOf weakGroupsToNodes .service
        clientHandles := foundHandles handleOf weakGroupsToNodes .client
        timerHandles := foundHandles handleOf weakGroupsToNodes .timer
        waitableHandles := ptrsOf .waitable (weakGroupsToNodes.flatMap WeakGroupEntry.found) } := by
  obtain ⟨subscriptions, services, clients, timers, waitables⟩ :=
    foldl_collectEntity handleOf (weakGroupsToNodes.flatMap WeakGroupEntry.found) {}
  unfold collected
  rw [collectEntities_eq]
  generalize (weakGroupsToNodes.flatMap WeakGroupEntry.found).foldl (collectEntity handleOf) {} = s at *
  cases s
  simp only [List.nil_append] at subscriptions services clients timers waitables
  subst subscriptions services clients timers waitables
  rfl

/-- A cycle that answers its wait goes through, and takes from handles that survived:
those with a slot left non-null. -/
theorem waitCycle_ok (isReady : WaitSet → Ptr → Bool) (s : MemoryStrategy)
    (waited : WaitedFor waitSet (collected handleOf weakGroupsToNodes)) :
    ∃ kept : MemoryStrategy,
      s.waitCycle handleOf isReady weakGroupsToNodes waitSet =
          .ok ({ kept with subscriptionHandles := [], timerHandles := [] },
            ⟨taken handleOf weakGroupsToNodes .subscription kept.subscriptionHandles,
              taken handleOf weakGroupsToNodes .timer kept.timerHandles⟩) ∧
        (0 ∉ kept.subscriptionHandles ∧ ∀ handle, handle ∈ kept.subscriptionHandles ↔
          LeftNonNull waitSet.subscriptions (collected handleOf weakGroupsToNodes).subscriptionHandles
            handle) ∧
        (0 ∉ kept.timerHandles ∧ ∀ handle, handle ∈ kept.timerHandles ↔
          LeftNonNull waitSet.timers (collected handleOf weakGroupsToNodes).timerHandles handle) := by
  obtain ⟨kept, removed, survived, survivedTimers⟩ := removeNullHandles_ok isReady waited
  have cycle : s.waitCycle handleOf isReady weakGroupsToNodes waitSet =
      .ok (kept.takeReadyHandles handleOf weakGroupsToNodes) := by
    show Except.map _ (removeNullHandles isReady waitSet (collected handleOf weakGroupsToNodes)) = _
    rw [removed]
    rfl
  rw [takeReadyHandles_eq] at cycle
  exact ⟨kept, cycle, survived, survivedTimers⟩

/-- **Each wait cycle reports exactly the ready entities**: whatever the groups, the
wait's outcome and the vectors of the cycle before, a subscription or timer is
reported, and then once, exactly if a live takeable group with a live node has it
and some slot of its handle was left non-null; and the two handle vectors are left
empty. -/
theorem waitCycle_reports (isReady : WaitSet → Ptr → Bool) (s : MemoryStrategy)
    (distinct : DistinctHandles handleOf weakGroupsToNodes)
    (waited : WaitedFor waitSet (collected handleOf weakGroupsToNodes)) :
    ∃ s' reported, s.waitCycle handleOf isReady weakGroupsToNodes waitSet = .ok (s', reported) ∧
      reported.readySubscriptions.Nodup ∧
      (∀ ptr, ptr ∈ reported.readySubscriptions ↔ FoundIn weakGroupsToNodes ⟨.subscription, ptr⟩ ∧
        LeftNonNull waitSet.subscriptions (collected handleOf weakGroupsToNodes).subscriptionHandles
          (handleOf ⟨.subscription, ptr⟩)) ∧
      reported.readyTimers.Nodup ∧
      (∀ ptr, ptr ∈ reported.readyTimers ↔ FoundIn weakGroupsToNodes ⟨.timer, ptr⟩ ∧
        LeftNonNull waitSet.timers (collected handleOf weakGroupsToNodes).timerHandles
          (handleOf ⟨.timer, ptr⟩)) ∧
      s'.subscriptionHandles = [] ∧ s'.timerHandles = [] := by
  obtain ⟨kept, cycle, ⟨noNull, survived⟩, noNullTimer, survivedTimers⟩ := waitCycle_ok isReady s waited
  rw [collected_eq] at survived survivedTimers ⊢
  obtain ⟨nodup, members⟩ := taken_reports distinct .subscription noNull survived
  obtain ⟨nodupTimers, membersTimers⟩ := taken_reports distinct .timer noNullTimer survivedTimers
  exact ⟨_, _, cycle, nodup, members, nodupTimers, membersTimers, rfl, rfl⟩

/-- What a cycle reports has been drawn from the scanned groups, so the lookups of
the dispatch path find it. -/
theorem waitCycle_drawnFrom {s' : MemoryStrategy} {reported : Reported} {ready : ReadyHandles}
    (distinct : DistinctHandles handleOf weakGroupsToNodes)
    (waited : WaitedFor waitSet (collected handleOf weakGroupsToNodes))
    (ran : s.waitCycle handleOf isReady weakGroupsToNodes waitSet = .ok (s', reported))
    (subscriptions : ready.subscriptions.map (·.ptr) = reported.readySubscriptions)
    (timers : ready.timers.map (·.ptr) = reported.readyTimers) :
    ready.DrawnFrom weakGroupsToNodes := by
  obtain ⟨kept, cycle, ⟨noNull, survived⟩, noNullTimer, survivedTimers⟩ := waitCycle_ok isReady s waited
  rw [collected_eq] at survived survivedTimers
  have members := (taken_reports distinct .subscription noNull survived).2
  have membersTimers := (taken_reports distinct .timer noNullTimer survivedTimers).2
  rw [ran] at cycle
  cases cycle
  refine ⟨fun subscription member => ?_, fun timer member => ?_⟩
  · have reports := List.mem_map_of_mem (f := (·.ptr)) member
    rw [subscriptions] at reports
    exact ((members _).1 reports).1.dispatched (Or.inl rfl)
  · have reports := List.mem_map_of_mem (f := (·.ptr)) member
    rw [timers] at reports
    exact ((membersTimers _).1 reports).1.dispatched (Or.inr rfl)

/-! ### A cycle -/

/-- A taken group, a group that is busy and lists the same subscription, and an
expired one. -/
def sampleWaitGroups : WeakCallbackGroupsToNodesMap :=
  [⟨some sampleGroup, some 100⟩,
    ⟨some { ptr := 2, type := .mutuallyExclusive, canBeTakenFrom := false, subscriptions := [11],
            services := [], clients := [], timers := [21], waitables := [] }, some 100⟩,
    ⟨none, some 100⟩]

/-- The subscription is ready, the timer is not, and a waitable has added a slot. -/
def sampleWaitSet : WaitSet :=
  { subscriptions := [1011, 7], services := [], clients := [], timers := [0] }

theorem waitCycle_reports_sample :
    ∃ s' reported, ({} : MemoryStrategy).waitCycle (fun entity => 1000 + entity.rawPointer)
        (fun _ _ => false) sampleWaitGroups sampleWaitSet = .ok (s', reported) ∧
      11 ∈ reported.readySubscriptions ∧ 12 ∉ reported.readyTimers ∧ s'.subscriptionHandles = [] := by
  have distinct : DistinctHandles (fun entity => 1000 + entity.rawPointer) sampleWaitGroups :=
    fun _ _ _ _ _ same => Nat.add_left_cancel same
  have handles : collected (fun entity => 1000 + entity.rawPointer) sampleWaitGroups =
      { subscriptionHandles := [1011], timerHandles := [1012] } := rfl
  have waited : WaitedFor sampleWaitSet
      (collected (fun entity => 1000 + entity.rawPointer) sampleWaitGroups) := by
    rw [handles]
    refine ⟨fun i handle at_ => ?_, fun i handle at_ => ?_, fun i handle at_ => ?_, fun i handle at_ => ?_⟩
    · obtain ⟨rfl, rfl⟩ : i = 0 ∧ 1011 = handle := by simpa [List.getElem?_singleton] using at_
      exact ⟨1011, rfl, Or.inr rfl⟩
    · simp at at_
    · simp at at_
    · obtain ⟨rfl, rfl⟩ : i = 0 ∧ 1012 = handle := by simpa [List.getElem?_singleton] using at_
      exact ⟨0, rfl, Or.inl rfl⟩
  obtain ⟨s', reported, ran, -, members, -, membersTimers, empty, -⟩ :=
    waitCycle_reports (fun _ _ => false) {} distinct waited
  refine ⟨s', reported, ran, (members 11).2 ⟨⟨sampleGroup, 100, List.mem_cons_self, rfl, by decide⟩, ?_⟩,
    fun member => ?_, empty⟩
  · exact ⟨0, 1011, rfl, rfl, by decide⟩
  · obtain ⟨-, i, slot, -, atSlot, ready⟩ := (membersTimers 12).1 member
    obtain ⟨-, null⟩ : i = 0 ∧ 0 = slot := by simpa [sampleWaitSet, List.getElem?_singleton] using atSlot
    exact ready null.symm

end MemoryStrategy

end PreemptiveExecutor
