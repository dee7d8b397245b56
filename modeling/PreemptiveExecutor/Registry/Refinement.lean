/-
# Registry.Refinement — the traversal computes owners and hand-overs

`Names r forest s` says that the threadgroup ids of the traversal state `s` are
names for the owners of the forest: different owners have different ids, every
visited callback is assigned the id of the owner it joins, and the records are
those of the owners.  `Links r forest s` says the same of the threadgroup edges
and the hand-overs.

Every visit of the traversal is matched by a visit of the depth-first search and
keeps both (`visit_refines`), so the root loop ends with the threadgroups of the
depth-first forest (`traverseRoots_refines`).
-/
import PreemptiveExecutor.Registry.Visited
import PreemptiveExecutor.Registry.Handover

namespace PreemptiveExecutor

open Theory
open CallbackRegistry (Opened Grown HandsOver)

set_option autoImplicit false

namespace TraversalState

/-- The threadgroup id of an owner. -/
def idOf (s : TraversalState) : Owner → Nat
  | .mutexGroup group => (s.mutexThreadgroupMap.lookup group).getD 0
  | .segment head => ((s.callbackMap.lookup head).map CallbackInfo.threadgroupId).getD 0

/-- The record of an owner's threadgroup before priorities and threads are set. -/
structure RecordOf (r : CallbackRegistry) (forest : Forest) (o : Owner) (group : ThreadGroupInfo) :
    Prop where
  isMutexGroup : group.isMutexGroup = o.isMutex
  first : group.callbacks.head? = r.firstCallback forest o
  numThreads : group.numThreads = 1

structure Names (r : CallbackRegistry) (forest : Forest) (s : TraversalState) : Prop where
  graph : s.adjacencyList = r.adjacencyList
  same : UnorderedMap.SameEntries SameCallback r.callbackMap s.callbackMap
  visited : ∀ name, name ∈ forest.names ↔ s.Assigned name
  mutexes : ∀ group, (∃ id, s.mutexThreadgroupMap.lookup group = some id) ↔
    r.Opened forest (.mutexGroup group)
  joined : ∀ name ∈ forest.names, ∀ info, s.callbackMap.lookup name = some info →
    info.threadgroupId = s.idOf (r.joins forest name)
  injective : ∀ o o', r.Opened forest o → r.Opened forest o' → s.idOf o = s.idOf o' → o = o'
  record : ∀ o, r.Opened forest o → ∃ group,
    s.threadgroupCallbackMap.lookup (s.idOf o) = some group ∧ RecordOf r forest o group
  onto : ∀ id ∈ s.threadgroupCallbackMap, ∃ o, r.Opened forest o ∧ s.idOf o = id

/-- The edges of the threadgroup graph are the hand-overs. -/
structure Links (r : CallbackRegistry) (forest : Forest) (s : TraversalState) : Prop where
  outgoing : ∀ id id', id' ∈ (UnorderedMap.subscript s.threadgroupAdjacencyList id).outgoing ↔
    ∃ o o', r.HandsOver forest o o' ∧ s.idOf o = id ∧ s.idOf o' = id'
  incoming : ∀ id id', id' ∈ (UnorderedMap.subscript s.threadgroupAdjacencyList id).incoming ↔
    ∃ o o', r.HandsOver forest o' o ∧ s.idOf o = id ∧ s.idOf o' = id'
  nodup : ∀ id, (UnorderedMap.subscript s.threadgroupAdjacencyList id).incoming.Nodup
  linked : ∀ id ∈ s.threadgroupAdjacencyList,
    ∃ id', id' ∈ (UnorderedMap.subscript s.threadgroupAdjacencyList id).outgoing ∨
      id' ∈ (UnorderedMap.subscript s.threadgroupAdjacencyList id).incoming

/-- A pending call of the traversal and the one of the search it stands for. -/
structure Stands (r : CallbackRegistry) (forest : Forest) (s : TraversalState) (call : Call)
    (first : FirstCall) : Prop where
  name : call.callbackName = first.callbackName
  root : first.caller = none → call.threadgroupId = 0 ∧ call.prevThreadgroupId = 0
  known : ∀ before, first.caller = some before → before ∈ forest.names
  inherited : ∀ before, first.caller = some before → r.adjacencyList.continues before = true →
    call.threadgroupId = s.idOf (r.carries forest before)
  restarted : ∀ before, first.caller = some before → r.adjacencyList.continues before = false →
    call.threadgroupId = 0 ∧ call.prevThreadgroupId = s.idOf (r.carries forest before)

section Owners

variable {r : CallbackRegistry} {forest : Forest} {s : TraversalState}

/-- The callback groups do not change, so the state's callbacks have the owners
of the registry. -/
theorem Names.owner (names : Names r forest s) {name : String} {info : CallbackInfo}
    (found : s.callbackMap.lookup name = some info) : r.owner name = info.owner name := by
  obtain ⟨info', found', same⟩ := names.same.lookup_left found
  rw [CallbackRegistry.owner, found', same]
  rfl

theorem owner_isMutex (info : CallbackInfo) (name : String) : (info.owner name).isMutex = info.isMutex := by
  unfold CallbackInfo.owner
  cases info.isMutex <;> rfl

/-- The id of an owner names an existing threadgroup. -/
theorem Names.present (names : Names r forest s) {o : Owner} (opened : r.Opened forest o) :
    s.idOf o ∈ s.threadgroupCallbackMap :=
  let ⟨group, found, _⟩ := names.record o opened
  UnorderedMap.mem_iff_lookup.2 ⟨group, found⟩

theorem Names.nonzero (names : Names r forest s) (sound : s.Sound) {o : Owner}
    (opened : r.Opened forest o) : s.idOf o ≠ 0 := by
  obtain ⟨group, found, -⟩ := names.record o opened
  exact Nat.ne_of_gt (sound.registry.record _ group found).2.1

/-- The head of a segment is a callback that has been visited. -/
theorem segment_visited {head : String} (opened : r.Opened forest (.segment head)) :
    head ∈ forest.names := by
  by_contra new
  exact CallbackRegistry.not_opened_segment new opened

end Owners

/-! ## Group assignment -/

section Assignment

variable {r : CallbackRegistry} {forest : Forest} {s s₁ : TraversalState} {first : FirstCall}
  {info : CallbackInfo} {id : Nat}

/-- The same threadgroup with callbacks appended to its list. -/
def Appended (group group' : ThreadGroupInfo) : Prop :=
  group'.isMutexGroup = group.isMutexGroup ∧ group'.numThreads = group.numThreads ∧
    ∃ more, group'.callbacks = group.callbacks ++ more

theorem Appended.refl (group : ThreadGroupInfo) : Appended group group :=
  ⟨rfl, rfl, [], (List.append_nil _).symm⟩

/-- The record of an opened owner stays one when callbacks are appended. -/
theorem RecordOf.appended {o : Owner} {group group' : ThreadGroupInfo} (opened : r.Opened forest o)
    (is : RecordOf r forest o group) (appended : Appended group group') :
    RecordOf r forest o group' := by
  obtain ⟨mutex, threads, more, callbacks⟩ := appended
  obtain ⟨name, first⟩ := CallbackRegistry.firstCallback_some opened
  refine ⟨mutex.trans is.isMutexGroup, ?_, threads.trans is.numThreads⟩
  rw [callbacks, List.head?_append, is.first, first]
  rfl

theorem RecordOf.cons {o : Owner} {group : ThreadGroupInfo} (opened : r.Opened forest o)
    (is : RecordOf r forest o group) : RecordOf r (first :: forest) o group :=
  ⟨is.isMutexGroup, is.first.trans (CallbackRegistry.firstCallback_cons opened).symm, is.numThreads⟩

/-- The ids of the owners do not change when one more callback is assigned. -/
theorem Names.idOf_stable (names : Names r forest s) (new : first.callbackName ∉ forest.names)
    (callbacks : s₁.callbackMap = s.callbackMap.insert first.callbackName { info with threadgroupId := id })
    (groups : ∀ group id', s.mutexThreadgroupMap.lookup group = some id' →
      s₁.mutexThreadgroupMap.lookup group = some id') (o : Owner) (opened : r.Opened forest o) :
    s₁.idOf o = s.idOf o := by
  cases o with
  | mutexGroup group =>
      obtain ⟨id', known⟩ := (names.mutexes group).2 opened
      rw [idOf, idOf, known, groups group id' known]
  | segment head =>
      have other : head ≠ first.callbackName := by
        rintro rfl
        exact new (segment_visited opened)
      rw [idOf, idOf, callbacks, AList.lookup_insert_ne other]

/-- What remains to be shown when a visit has assigned one more callback: its id
is that of the owner it joins, and ids and records are those of the owners. -/
theorem Names.assigned (names : Names r forest s) (grown : r.Grown forest)
    (found : s.callbackMap.lookup first.callbackName = some info) (nonzero : id ≠ 0)
    (graph : s₁.adjacencyList = s.adjacencyList)
    (callbacks : s₁.callbackMap = s.callbackMap.insert first.callbackName { info with threadgroupId := id })
    (stable : ∀ o, r.Opened forest o → s₁.idOf o = s.idOf o)
    (own : s₁.idOf (r.joins (first :: forest) first.callbackName) = id)
    (mutexes : ∀ group, (∃ id, s₁.mutexThreadgroupMap.lookup group = some id) ↔
      r.Opened (first :: forest) (.mutexGroup group))
    (injective : ∀ o o', r.Opened (first :: forest) o → r.Opened (first :: forest) o' →
      s₁.idOf o = s₁.idOf o' → o = o')
    (record : ∀ o, r.Opened (first :: forest) o → ∃ group,
      s₁.threadgroupCallbackMap.lookup (s₁.idOf o) = some group ∧ RecordOf r (first :: forest) o group)
    (onto : ∀ id ∈ s₁.threadgroupCallbackMap, ∃ o, r.Opened (first :: forest) o ∧ s₁.idOf o = id) :
    Names r (first :: forest) s₁ where
  graph := graph.trans names.graph
  same := by
    rw [callbacks]
    exact names.same.trans (sameCallback_insert found id) fun a b c h₁ h₂ => by rw [SameCallback, h₂, h₁]
  visited name := by
    rw [CallbackRegistry.mem_names_cons, names.visited]
    unfold CallbackRegistry.Assigned
    rw [callbacks]
    exact (CallbackRegistry.assigned_insert s.toCallbackRegistry first.callbackName
      { info with threadgroupId := id } nonzero name).symm
  mutexes := mutexes
  joined name visited info' found' := by
    rw [callbacks, UnorderedMap.lookup_insert_eq] at found'
    split at found'
    · rename_i same
      cases found'
      rw [same, own]
    · rename_i other
      have old := (CallbackRegistry.mem_names_cons.1 visited).resolve_left other
      rw [CallbackRegistry.joins_other other, stable _ (grown.joined old)]
      exact names.joined name old info' found'
  injective := injective
  record := record
  onto := onto

/-- A callback joins an owner that has a threadgroup already. -/
theorem Names.joinKnown (names : Names r forest s) (sound : s.Sound) (grown : r.Grown forest)
    (new : first.callbackName ∉ forest.names)
    (found : s.callbackMap.lookup first.callbackName = some info) (id : Nat) (s₁ : TraversalState)
    (known : ∀ o, r.Opened (first :: forest) o ↔ r.Opened forest o)
    (opened : r.Opened forest (r.joins (first :: forest) first.callbackName))
    (own : s.idOf (r.joins (first :: forest) first.callbackName) = id)
    (graph : s₁.adjacencyList = s.adjacencyList)
    (callbacks : s₁.callbackMap = s.callbackMap.insert first.callbackName { info with threadgroupId := id })
    (groups : s₁.mutexThreadgroupMap = s.mutexThreadgroupMap)
    (records : UnorderedMap.SameEntries Appended s.threadgroupCallbackMap s₁.threadgroupCallbackMap) :
    Names r (first :: forest) s₁ ∧ ∀ o, r.Opened forest o → s₁.idOf o = s.idOf o := by
  have stable := names.idOf_stable new callbacks fun group id' known => by rw [groups]; exact known
  refine ⟨names.assigned grown found (own ▸ names.nonzero sound opened) graph callbacks stable
    ((stable _ opened).trans own) (fun group => ?_) (fun o o' at_ at_' same => ?_) (fun o at_ => ?_)
    fun id' present => ?_, stable⟩
  · rw [groups, known]
    exact names.mutexes group
  · rw [known] at at_ at_'
    rw [stable o at_, stable o' at_'] at same
    exact names.injective o o' at_ at_' same
  · rw [known] at at_
    obtain ⟨group, found, is⟩ := names.record o at_
    obtain ⟨group', found', appended⟩ := records.lookup_right found
    exact ⟨group', by rw [stable o at_]; exact found', (is.appended at_ appended).cons at_⟩
  · obtain ⟨o, at_, same⟩ := names.onto id' ((records.mem_iff id').2 present)
    exact ⟨o, (known o).2 at_, (stable o at_).trans same⟩

/-- The owner of a new callback has a threadgroup if it is a mutex group with one. -/
theorem Names.opened_owner_iff (names : Names r forest s) (new : first.callbackName ∉ forest.names)
    (found : s.callbackMap.lookup first.callbackName = some info) :
    r.Opened forest (r.owner first.callbackName) ↔
      info.isMutex = true ∧ ∃ id, s.mutexThreadgroupMap.lookup info.callbackGroup.ptr = some id := by
  rw [names.owner found, CallbackInfo.owner]
  split
  · rename_i mutex
    rw [← names.mutexes, mutex, eq_self_iff_true, true_and]
  · rename_i reentrant
    exact ⟨fun opened => absurd opened (CallbackRegistry.not_opened_segment new),
      fun ⟨mutex, _⟩ => absurd mutex reentrant⟩

/-- The id a new threadgroup's owner is found under. -/
theorem Names.idOf_opened (names : Names r forest s)
    (found : s.callbackMap.lookup first.callbackName = some info) {s₁ : TraversalState}
    (callbacks : s₁.callbackMap = s.callbackMap.insert first.callbackName { info with threadgroupId := id })
    (groups : s₁.mutexThreadgroupMap =
      if info.isMutex then s.mutexThreadgroupMap.insert info.callbackGroup.ptr id else s.mutexThreadgroupMap) :
    s₁.idOf (r.owner first.callbackName) = id := by
  rw [names.owner found, CallbackInfo.owner]
  split
  · rename_i mutex
    rw [idOf, groups, if_pos mutex, AList.lookup_insert]
    rfl
  · rw [idOf, callbacks, AList.lookup_insert]
    rfl

/-- A callback opens the threadgroup of its owner. -/
theorem Names.joinNew (names : Names r forest s) (grown : r.Grown forest)
    (new : first.callbackName ∉ forest.names)
    (found : s.callbackMap.lookup first.callbackName = some info) (s₁ : TraversalState) (nonzero : id ≠ 0)
    (opens : r.opens first = true) (unopened : ¬ r.Opened forest (r.owner first.callbackName))
    (joins : r.joins (first :: forest) first.callbackName = r.owner first.callbackName)
    (fresh : id ∉ s.threadgroupCallbackMap)
    (graph : s₁.adjacencyList = s.adjacencyList)
    (callbacks : s₁.callbackMap = s.callbackMap.insert first.callbackName { info with threadgroupId := id })
    (groups : s₁.mutexThreadgroupMap =
      if info.isMutex then s.mutexThreadgroupMap.insert info.callbackGroup.ptr id else s.mutexThreadgroupMap)
    (records : s₁.threadgroupCallbackMap =
      s.threadgroupCallbackMap.insert id (openedRecord id first.callbackName info)) :
    Names r (first :: forest) s₁ ∧ ∀ o, r.Opened forest o → s₁.idOf o = s.idOf o := by
  have ownerIs := names.owner found
  have opened : ∀ o, r.Opened (first :: forest) o ↔ r.owner first.callbackName = o ∨ r.Opened forest o :=
    fun o => by rw [CallbackRegistry.opened_cons, opens]; simp
  have stable := names.idOf_stable new callbacks fun group id' known => by
    rw [groups]
    split
    · rename_i mutex
      rw [UnorderedMap.lookup_insert_eq, if_neg, known]
      rintro rfl
      exact unopened ((names.opened_owner_iff new found).2 ⟨mutex, id', known⟩)
    · exact known
  have own := names.idOf_opened found callbacks groups
  have apart : ∀ o, r.Opened forest o → s₁.idOf o ≠ id := by
    intro o at_ same
    rw [stable o at_] at same
    exact fresh (same ▸ names.present at_)
  refine ⟨names.assigned grown found nonzero graph callbacks stable (joins ▸ own) (fun group => ?_)
    (fun o o' at_ at_' same => ?_) (fun o at_ => ?_) fun id' present => ?_, stable⟩
  · rw [opened, ← names.mutexes, groups, ownerIs, CallbackInfo.owner]
    split
    · simp only [UnorderedMap.lookup_insert_eq, Owner.mutexGroup.injEq]
      split
      · rename_i same; simp [same]
      · rename_i other; simp [Ne.symm other]
    · simp
  · rcases (opened o).1 at_ with rfl | old <;> rcases (opened o').1 at_' with rfl | old'
    · rfl
    · exact absurd (same.symm.trans own) (apart o' old')
    · exact absurd (same.trans own) (apart o old)
    · rw [stable o old, stable o' old'] at same
      exact names.injective o o' old old' same
  · rcases (opened o).1 at_ with rfl | old
    · refine ⟨openedRecord id first.callbackName info, by rw [records, own, AList.lookup_insert], ?_⟩
      refine ⟨?_, (CallbackRegistry.firstCallback_new unopened opens rfl).symm, rfl⟩
      rw [ownerIs, owner_isMutex]
      rfl
    · obtain ⟨group, atId, is⟩ := names.record o old
      refine ⟨group, ?_, is.cons old⟩
      rw [records, AList.lookup_insert_ne (apart o old), stable o old, atId]
  · rw [records, AList.mem_insert] at present
    rcases present with rfl | old
    · exact ⟨_, (opened _).2 (Or.inl rfl), own⟩
    · obtain ⟨o, at_, same⟩ := names.onto id' old
      exact ⟨o, (opened o).2 (Or.inr at_), (stable o at_).trans same⟩

/-- A callback comes to the threadgroup of its own owner. -/
theorem Names.enter (names : Names r forest s) (sound : s.Sound) (grown : r.Grown forest)
    (new : first.callbackName ∉ forest.names)
    (found : s.callbackMap.lookup first.callbackName = some info) (opens : r.opens first = true)
    {entered : Nat × TraversalState} (enters : s.enterThreadgroup first.callbackName info = entered) :
    Names r (first :: forest) entered.2 ∧ (∀ o, r.Opened forest o → entered.2.idOf o = s.idOf o) ∧
      entered.1 = entered.2.idOf (r.owner first.callbackName) ∧
      entered.2.threadgroupAdjacencyList = s.threadgroupAdjacencyList := by
  have joins : r.joins (first :: forest) first.callbackName = r.owner first.callbackName :=
    CallbackRegistry.joins_of_opens opens
  have ownerIs := names.owner found
  -- the id is that of the owner, since it is the one the callback is assigned
  have ownId : Names r (first :: forest) entered.2 → (∃ info', entered.2.callbackMap.lookup
      first.callbackName = some info' ∧ info'.threadgroupId = entered.1) →
      entered.1 = entered.2.idOf (r.owner first.callbackName) := by
    rintro named ⟨info', atName, isId⟩
    rw [← isId, ← joins]
    exact named.joined _ (CallbackRegistry.mem_names_cons.2 (Or.inl rfl)) info' atName
  by_cases opened : r.Opened forest (r.owner first.callbackName)
  · obtain ⟨mutex, id, known⟩ := (names.opened_owner_iff new found).1 opened
    have isId : s.idOf (r.owner first.callbackName) = id := by
      rw [ownerIs, CallbackInfo.owner, if_pos mutex, idOf, known]
      rfl
    rw [enterThreadgroup_existing mutex known] at enters
    subst enters
    obtain ⟨named, stable⟩ := names.joinKnown sound grown new found id
      { s with
        threadgroupCallbackMap := UnorderedMap.update s.threadgroupCallbackMap id fun group =>
          { group with callbacks := group.callbacks ++ [first.callbackName], threadgroupId := id }
        callbackMap := s.callbackMap.insert first.callbackName { info with threadgroupId := id }
        deadlineToThreadgroupIdMap :=
          OrderedMultimap.pushBack (s.adjacencyList.minDeadline first.callbackName) id
            s.deadlineToThreadgroupIdMap }
      (fun o => by
        rw [CallbackRegistry.opened_cons]
        exact or_iff_right_of_imp fun ⟨_, own⟩ => own ▸ opened)
      (joins ▸ opened) (joins ▸ isId) rfl rfl rfl
      (UnorderedMap.sameEntries_update Appended.refl (isId ▸ names.present opened) fun group _ =>
        ⟨rfl, rfl, [first.callbackName], rfl⟩)
    exact ⟨named, stable, ownId named ⟨_, AList.lookup_insert _, rfl⟩, rfl⟩
  · have without : info.isMutex = true → s.mutexThreadgroupMap.lookup info.callbackGroup.ptr = none := by
      intro mutex
      rw [Option.eq_none_iff_forall_ne_some]
      exact fun id known => opened ((names.opened_owner_iff new found).2 ⟨mutex, id, known⟩)
    rw [enterThreadgroup_new without sound.registry.fresh] at enters
    subst enters
    obtain ⟨named, stable⟩ := names.joinNew grown new found
      { s with
        nextThreadgroupId := s.nextThreadgroupId + 1
        mutexThreadgroupMap :=
          if info.isMutex then s.mutexThreadgroupMap.insert info.callbackGroup.ptr s.nextThreadgroupId
          else s.mutexThreadgroupMap
        threadgroupCallbackMap := s.threadgroupCallbackMap.insert s.nextThreadgroupId
          (openedRecord s.nextThreadgroupId first.callbackName info)
        callbackMap := s.callbackMap.insert first.callbackName
          { info with threadgroupId := s.nextThreadgroupId }
        deadlineToThreadgroupIdMap :=
          OrderedMultimap.pushBack (s.adjacencyList.minDeadline first.callbackName) s.nextThreadgroupId
            s.deadlineToThreadgroupIdMap }
      (Nat.ne_of_gt sound.registry.nextIdPos) opens opened joins sound.registry.fresh rfl rfl rfl rfl
    exact ⟨named, stable, ownId named ⟨_, AList.lookup_insert _, rfl⟩, rfl⟩

/-! ## Edges -/

/-- Hand-overs do not change their names. -/
theorem Links.stable (links : Links r forest s) (grown : r.Grown forest)
    (edges : s₁.threadgroupAdjacencyList = s.threadgroupAdjacencyList)
    (stable : ∀ o, r.Opened forest o → s₁.idOf o = s.idOf o) : Links r forest s₁ := by
  have same : ∀ (P : Owner → Owner → Prop) (id id' : Nat),
      (∀ o o', P o o' → r.Opened forest o ∧ r.Opened forest o') →
      ((∃ o o', P o o' ∧ s.idOf o = id ∧ s.idOf o' = id') ↔
        ∃ o o', P o o' ∧ s₁.idOf o = id ∧ s₁.idOf o' = id') := by
    intro P id id' opened
    refine exists_congr fun o => exists_congr fun o' => and_congr_right fun holds => ?_
    rw [stable o (opened o o' holds).1, stable o' (opened o o' holds).2]
  refine ⟨fun id id' => ?_, fun id id' => ?_, fun id => by rw [edges]; exact links.nodup id, ?_⟩
  · rw [edges, links.outgoing]
    exact same _ id id' grown.handed
  · rw [edges, links.incoming]
    exact same _ id id' fun o o' holds => (grown.handed o' o holds).symm
  · rw [edges]
    exact links.linked

theorem Links.of_handovers {forest' : Forest} (links : Links r forest s)
    (same : r.handovers forest' = r.handovers forest) : Links r forest' s := by
  refine ⟨fun id id' => ?_, fun id id' => ?_, links.nodup, links.linked⟩
  · rw [links.outgoing]
    simp only [HandsOver, same]
  · rw [links.incoming]
    simp only [HandsOver, same]

theorem outgoing_link (s : TraversalState) {prev : Nat} (nonzero : prev ≠ 0) (new id : Nat) :
    (UnorderedMap.subscript (s.linkThreadgroups prev new).threadgroupAdjacencyList id).outgoing =
      if id = prev then (UnorderedMap.subscript s.threadgroupAdjacencyList id).outgoing.insert new
      else (UnorderedMap.subscript s.threadgroupAdjacencyList id).outgoing := by
  unfold linkThreadgroups
  rw [if_neg nonzero]
  simp only [UnorderedMap.subscript_update]
  split
  · rename_i same
    subst same
    split <;> simp_all
  · split <;> simp_all

theorem incoming_link (s : TraversalState) {prev : Nat} (nonzero : prev ≠ 0) (new id : Nat) :
    (UnorderedMap.subscript (s.linkThreadgroups prev new).threadgroupAdjacencyList id).incoming =
      if id = new then (UnorderedMap.subscript s.threadgroupAdjacencyList id).incoming.insert prev
      else (UnorderedMap.subscript s.threadgroupAdjacencyList id).incoming := by
  unfold linkThreadgroups
  rw [if_neg nonzero]
  simp only [UnorderedMap.subscript_update]
  split
  · rename_i same
    subst same
    split <;> simp_all
  · split <;> simp_all

theorem mem_link (s : TraversalState) {prev : Nat} (nonzero : prev ≠ 0) (new id : Nat) :
    id ∈ (s.linkThreadgroups prev new).threadgroupAdjacencyList ↔
      id = new ∨ id = prev ∨ id ∈ s.threadgroupAdjacencyList := by
  unfold linkThreadgroups
  rw [if_neg nonzero]
  simp only [UnorderedMap.mem_update]

theorem idOf_link (s : TraversalState) (prev new : Nat) (o : Owner) :
    (s.linkThreadgroups prev new).idOf o = s.idOf o := by
  unfold linkThreadgroups
  split
  · rfl
  · cases o <;> rfl

/-- One more edge in a set that stands for the edges of owners. -/
theorem mem_insertEdge {P : Owner → Owner → Prop} {idOf : Owner → Nat} {ids : List Nat} {id : Nat}
    (old : ∀ id', id' ∈ ids ↔ ∃ o₁ o₂, P o₁ o₂ ∧ idOf o₁ = id ∧ idOf o₂ = id') (o o' : Owner) (id' : Nat) :
    id' ∈ (if id = idOf o then ids.insert (idOf o') else ids) ↔
      ∃ o₁ o₂, ((o₁ = o ∧ o₂ = o') ∨ P o₁ o₂) ∧ idOf o₁ = id ∧ idOf o₂ = id' := by
  constructor
  · intro member
    have kept : id' ∈ ids → ∃ o₁ o₂, ((o₁ = o ∧ o₂ = o') ∨ P o₁ o₂) ∧ idOf o₁ = id ∧ idOf o₂ = id' := by
      intro member
      obtain ⟨o₁, o₂, holds, same⟩ := (old id').1 member
      exact ⟨o₁, o₂, Or.inr holds, same⟩
    split at member
    · rename_i same
      rcases List.mem_insert_iff.1 member with rfl | member
      · exact ⟨o, o', Or.inl ⟨rfl, rfl⟩, same.symm, rfl⟩
      · exact kept member
    · exact kept member
  · rintro ⟨o₁, o₂, ⟨rfl, rfl⟩ | holds, rfl, rfl⟩
    · rw [if_pos rfl]
      exact List.mem_insert_self
    · have member := (old _).2 ⟨o₁, o₂, holds, rfl, rfl⟩
      split
      · exact List.mem_insert_of_mem member
      · exact member

/-- The edge of a new hand-over. -/
theorem Links.link {forest' : Forest} (links : Links r forest s) {o o' : Owner}
    (new : r.handovers forest' = (r.handovers forest).insert (o, o')) (nonzero : s.idOf o ≠ 0) :
    Links r forest' (s.linkThreadgroups (s.idOf o) (s.idOf o')) := by
  have edge : ∀ o₁ o₂, r.HandsOver forest' o₁ o₂ ↔ (o₁ = o ∧ o₂ = o') ∨ r.HandsOver forest o₁ o₂ := by
    intro o₁ o₂
    rw [HandsOver, new, List.mem_insert_iff, Prod.mk.injEq]
  constructor
  · intro id id'
    rw [outgoing_link s nonzero]
    simp only [edge, idOf_link]
    exact mem_insertEdge (links.outgoing id) o o' id'
  · intro id id'
    rw [incoming_link s nonzero]
    simp only [edge, idOf_link]
    refine (mem_insertEdge (links.incoming id) o' o id').trans ?_
    exact exists_congr fun o₁ => exists_congr fun o₂ => and_congr_left' (or_congr_left and_comm)
  · intro id
    rw [incoming_link s nonzero]
    split
    · exact List.Nodup.insert (links.nodup id)
    · exact links.nodup id
  · intro id member
    simp only [outgoing_link s nonzero, incoming_link s nonzero]
    rcases (mem_link s nonzero _ id).1 member with rfl | rfl | old
    · exact ⟨s.idOf o, Or.inr (by rw [if_pos rfl]; exact List.mem_insert_self)⟩
    · exact ⟨s.idOf o', Or.inl (by rw [if_pos rfl]; exact List.mem_insert_self)⟩
    · obtain ⟨id', member'⟩ := links.linked id old
      refine ⟨id', member'.imp (fun h => ?_) fun h => ?_⟩ <;> split <;>
        first | exact List.mem_insert_of_mem h | exact h

/-- Names do not look at the threadgroup graph, nor at what lists are extended by. -/
theorem Names.of_same (names : Names r forest s) (graph : s₁.adjacencyList = s.adjacencyList)
    (callbacks : s₁.callbackMap = s.callbackMap) (groups : s₁.mutexThreadgroupMap = s.mutexThreadgroupMap)
    (records : UnorderedMap.SameEntries Appended s.threadgroupCallbackMap s₁.threadgroupCallbackMap) :
    Names r forest s₁ ∧ ∀ o, s₁.idOf o = s.idOf o := by
  have sameId : ∀ o, s₁.idOf o = s.idOf o := by
    intro o
    cases o with
    | mutexGroup group => rw [idOf, idOf, groups]
    | segment head => rw [idOf, idOf, callbacks]
  refine ⟨⟨graph.trans names.graph, callbacks ▸ names.same, fun name => ?_, groups ▸ names.mutexes,
    fun name visited info found => ?_, fun o o' at_ at_' same => ?_, fun o at_ => ?_, fun id present => ?_⟩,
    sameId⟩
  · rw [names.visited]
    unfold CallbackRegistry.Assigned
    rw [callbacks]
  · rw [callbacks] at found
    rw [sameId]
    exact names.joined name visited info found
  · rw [sameId, sameId] at same
    exact names.injective o o' at_ at_' same
  · obtain ⟨group, found, is⟩ := names.record o at_
    obtain ⟨group', found', appended⟩ := records.lookup_right found
    exact ⟨group', by rw [sameId]; exact found', is.appended at_ appended⟩
  · obtain ⟨o, at_, same⟩ := names.onto id ((records.mem_iff id).2 present)
    exact ⟨o, at_, (sameId o).trans same⟩

/-- **Group assignment** gives the callback the threadgroup of the owner it joins,
goes on in that of the owner it carries, and adds the edge of the hand-over. -/
theorem assignThreadgroup_refines (names : Names r forest s) (links : Links r forest s) (sound : s.Sound)
    (grown : r.Grown forest) {call : Call} (stands : Stands r forest s call first)
    (new : first.callbackName ∉ forest.names)
    (found : s.callbackMap.lookup first.callbackName = some info)
    (assigned : s.assignThreadgroup first.callbackName info call.threadgroupId call.prevThreadgroupId =
      (id, s₁)) :
    Names r (first :: forest) s₁ ∧ Links r (first :: forest) s₁ ∧
      (∀ o, r.Opened forest o → s₁.idOf o = s.idOf o) ∧
      id = s₁.idOf (r.carries (first :: forest) first.callbackName) := by
  cases caller : first.caller with
  | none =>
      -- the root loop: a threadgroup without an edge
      obtain ⟨noGroup, noPrev⟩ := stands.root caller
      have entered : r.entered first.caller = true := by rw [caller]; rfl
      obtain ⟨named, stable, isId, edges⟩ :=
        names.enter sound grown new found (CallbackRegistry.opens_of_entered entered) rfl
      rw [noGroup, noPrev, assignThreadgroup_restart] at assigned
      obtain ⟨rfl, rfl⟩ := Prod.mk.inj assigned
      rw [linkThreadgroups, if_pos rfl, CallbackRegistry.carries_entered entered]
      exact ⟨named, (links.stable grown edges stable).of_handovers
        (CallbackRegistry.handovers_root caller), stable, isId⟩
  | some before =>
      have known := grown.carried before (stands.known before caller)
      have nonzero := names.nonzero sound known
      cases continuing : r.adjacencyList.continues before with
      | true =>
          -- the caller's threadgroup is carried on, without an edge
          have inherited := stands.inherited before caller continuing
          have sameEdges := CallbackRegistry.handovers_inherited forest caller continuing
          have carriesOn := CallbackRegistry.carries_inherited forest caller continuing
          cases mutex : info.isMutex with
          | true =>
              have opens : r.opens first = true := by
                rw [CallbackRegistry.opens, names.owner found, owner_isMutex, mutex, Bool.true_or]
              obtain ⟨named, stable, -, edges⟩ := names.enter sound grown new found opens rfl
              rw [assignThreadgroup_mutex (inherited ▸ nonzero) mutex] at assigned
              obtain ⟨rfl, rfl⟩ := Prod.mk.inj assigned
              refine ⟨named, (links.stable grown edges stable).of_handovers sameEdges, stable, ?_⟩
              rw [carriesOn, stable _ known, inherited]
          | false =>
              have reentrant : (r.owner first.callbackName).isMutex = false := by
                rw [names.owner found, owner_isMutex, mutex]
              have noOpening : r.opens first = false := by
                rw [CallbackRegistry.opens, reentrant, CallbackRegistry.entered_of_caller caller, continuing]
                rfl
              have joins : r.joins (first :: forest) first.callbackName = r.carries forest before := by
                rw [CallbackRegistry.joins, reentrant, if_neg Bool.false_ne_true, carriesOn]
              rw [assignThreadgroup_inherited (inherited ▸ nonzero) mutex] at assigned
              obtain ⟨rfl, rfl⟩ := Prod.mk.inj assigned
              obtain ⟨named, stable⟩ := names.joinKnown sound grown new found call.threadgroupId
                (s.setThreadgroupId first.callbackName info call.threadgroupId)
                (fun o => by rw [CallbackRegistry.opened_cons, noOpening]; simp) (joins ▸ known)
                (by rw [joins, inherited]) rfl rfl rfl
                (UnorderedMap.sameEntries_refl Appended.refl _)
              have edges : (s.setThreadgroupId first.callbackName info
                  call.threadgroupId).threadgroupAdjacencyList = s.threadgroupAdjacencyList := rfl
              refine ⟨named, (links.stable grown edges stable).of_handovers sameEdges, stable, ?_⟩
              rw [carriesOn, stable _ known, inherited]
      | false =>
          -- a threadgroup that the caller's one hands over to
          obtain ⟨noGroup, prev⟩ := stands.restarted before caller continuing
          have entered : r.entered first.caller = true := by
            rw [CallbackRegistry.entered_of_caller caller, continuing]
            rfl
          obtain ⟨named, stable, isId, edges⟩ :=
            names.enter sound grown new found (CallbackRegistry.opens_of_entered entered) rfl
          rw [noGroup, prev, assignThreadgroup_restart] at assigned
          obtain ⟨rfl, rfl⟩ := Prod.mk.inj assigned
          have sameIds := fun o => idOf_link (s.enterThreadgroup first.callbackName info).2
            (s.idOf (r.carries forest before)) (s.enterThreadgroup first.callbackName info).1 o
          have linked := (links.stable grown edges stable).link
            (CallbackRegistry.handovers_restarted caller continuing) (by rw [stable _ known]; exact nonzero)
          rw [stable _ known, ← isId] at linked
          refine ⟨?_, linked, fun o opened => (sameIds o).trans (stable o opened), ?_⟩
          · refine (named.of_same ?_ ?_ ?_ ?_).1
            all_goals unfold linkThreadgroups; rw [if_neg nonzero]
            exact UnorderedMap.sameEntries_refl Appended.refl _
          · rw [CallbackRegistry.carries_entered entered, sameIds]
            exact isId

end Assignment

/-! ## Visits -/

/-- What relates a state and its pending calls to a forest and the calls of the search. -/
structure Refines (r : CallbackRegistry) (s : TraversalState) (forest : Forest) (calls : List Call)
    (firsts : List FirstCall) : Prop where
  sound : SoundCalls s calls
  grown : r.Grown forest
  names : Names r forest s
  links : Links r forest s
  stands : List.Forall₂ (Stands r forest s) calls firsts

section Visits

variable {r : CallbackRegistry} {forest : Forest} {s s' : TraversalState}

theorem pushOnlySuccessor_appends (s : TraversalState) {id : Nat} (present : id ∈ s.threadgroupCallbackMap)
    (callbackName : String) :
    UnorderedMap.SameEntries Appended s.threadgroupCallbackMap
      (s.pushOnlySuccessor callbackName id).threadgroupCallbackMap ∧
    (s.pushOnlySuccessor callbackName id).mutexThreadgroupMap = s.mutexThreadgroupMap ∧
    (s.pushOnlySuccessor callbackName id).threadgroupAdjacencyList = s.threadgroupAdjacencyList := by
  unfold pushOnlySuccessor
  split
  · rename_i next _
    exact ⟨UnorderedMap.sameEntries_update Appended.refl present fun group _ => ⟨rfl, rfl, [next], rfl⟩,
      rfl, rfl⟩
  · exact ⟨UnorderedMap.sameEntries_refl Appended.refl _, rfl, rfl⟩

/-- A pending call stands for the same call when one more callback has been visited. -/
theorem Stands.cons {call : Call} {first next : FirstCall} (stands : Stands r forest s call next)
    (grown : r.Grown forest) (new : first.callbackName ∉ forest.names)
    (stable : ∀ o, r.Opened forest o → s'.idOf o = s.idOf o) : Stands r (first :: forest) s' call next := by
  have sameId : ∀ before, next.caller = some before →
      s'.idOf (r.carries (first :: forest) before) = s.idOf (r.carries forest before) := by
    intro before caller
    have known := stands.known before caller
    rw [CallbackRegistry.carries_other (by rintro rfl; exact new known)]
    exact stable _ (grown.carried before known)
  refine ⟨stands.name, stands.root, fun before caller => ?_, fun before caller continuing => ?_,
    fun before caller restarting => ?_⟩
  · exact CallbackRegistry.mem_names_cons.2 (Or.inr (stands.known before caller))
  · rw [sameId before caller]
    exact stands.inherited before caller continuing
  · rw [sameId before caller]
    exact stands.restarted before caller restarting

/-- The nested calls of a visit stand for those of the search. -/
theorem nestedCalls_stand {first : FirstCall} {id : Nat}
    (isId : id = s'.idOf (r.carries (first :: forest) first.callbackName)) (prev : Nat) :
    List.Forall₂ (Stands r (first :: forest) s')
      (nestedCalls r.adjacencyList first.callbackName id prev)
      ((r.adjacencyList.followed first.callbackName).map (⟨·, some first.callbackName⟩)) := by
  unfold nestedCalls
  rw [List.forall₂_map_left_iff, List.forall₂_map_right_iff, List.forall₂_same]
  intro next _
  have isCaller : ∀ before, some first.callbackName = some before → before = first.callbackName :=
    fun before h => (Option.some.inj h).symm
  refine ⟨by split <;> rfl, (nomatch ·), fun before caller => ?_, fun before caller continuing => ?_,
    fun before caller restarting => ?_⟩
  · rw [isCaller before caller]
    exact CallbackRegistry.mem_names_cons.2 (Or.inl rfl)
  · obtain rfl := isCaller before caller
    rw [if_pos continuing]
    exact isId
  · obtain rfl := isCaller before caller
    rw [restarting]
    exact ⟨rfl, isId⟩

/-- **Every visit of the traversal is a visit of the depth-first search.** -/
theorem visit_refines {call : Call} {rest calls : List Call} {first : FirstCall}
    {rest' : List FirstCall} (refines : Refines r s forest (call :: rest) (first :: rest'))
    (visited : visit s call = .ok (s', calls)) :
    ∃ forest' firsts, visitForest r.adjacencyList forest first = .ok (forest', firsts) ∧
      calls.length = firsts.length ∧ Refines r s' forest' (calls ++ rest) (firsts ++ rest') := by
  obtain ⟨sound, grown, names, links, stands⟩ := refines
  obtain ⟨here, later⟩ := List.forall₂_cons.1 stands
  have sound' := visit_sound s call rest s' calls sound visited
  obtain ⟨name, threadgroupId, prevThreadgroupId⟩ := call
  obtain rfl : name = first.callbackName := here.name
  rcases visit_ok visited with ⟨info, found, done, rfl, rfl⟩ |
    ⟨info, id, s₁, found, unassigned, assigned, rfl, rfl⟩
  · have old : first.callbackName ∈ forest.names :=
      (names.visited _).2 ⟨info, found, done⟩
    exact ⟨forest, [], by rw [visitForest, if_pos old], rfl, sound', grown, names, links, later⟩
  · have new : first.callbackName ∉ forest.names := by
      rw [names.visited]
      rintro ⟨info', found', done⟩
      rw [found] at found'
      cases found'
      exact done unassigned
    obtain ⟨named, linked, stable, isId⟩ :=
      assignThreadgroup_refines names links sound.1 grown here new found assigned
    have grown' := grown.cons new here.known
    have opened := grown'.carried _ (CallbackRegistry.mem_names_cons.2 (Or.inl rfl))
    obtain ⟨appended, groups, edges⟩ :=
      pushOnlySuccessor_appends s₁ (isId ▸ named.present opened) first.callbackName
    obtain ⟨named', sameId⟩ := named.of_same (pushOnlySuccessor_adjacencyList ..)
      (pushOnlySuccessor_callbackMap ..) groups appended
    refine ⟨first :: forest, _, by rw [visitForest, if_neg new], ?_, sound', grown', named',
      linked.stable grown' edges fun o _ => sameId o, List.rel_append ?_ ?_⟩
    · rw [named.graph]
      simp [nestedCalls]
    · rw [named.graph]
      exact nestedCalls_stand (isId.trans (sameId _).symm) _
    · exact later.imp fun c f standing =>
        standing.cons grown new fun o at_ => (sameId o).trans (stable o at_)

end Visits

end TraversalState

namespace CallbackRegistry

variable {r : CallbackRegistry}

/-- A registry on which no allocation has run: as the constructor leaves it. -/
structure Fresh (r : CallbackRegistry) : Prop where
  sound : r.Sound
  unassigned : ∀ name, ¬ r.Assigned name
  noEdges : r.threadgroupAdjacencyList = ∅
  noGroups : r.mutexThreadgroupMap = ∅
  noRecords : r.threadgroupCallbackMap = ∅

theorem refines_start (fresh : r.Fresh) :
    TraversalState.Refines r r.start [] r.rootCalls (r.adjacencyList.roots.map (⟨·, none⟩)) where
  sound := (search_start fresh.sound).1
  grown := grown_nil
  names :=
    { graph := rfl
      same := UnorderedMap.sameEntries_refl TraversalState.SameCallback.refl _
      visited := fun name => ⟨fun member => (nomatch member), fun done => absurd done (fresh.unassigned name)⟩
      mutexes := fun group => by
        change (∃ id, r.mutexThreadgroupMap.lookup group = some id) ↔ _
        rw [fresh.noGroups]
        exact ⟨fun ⟨_, found⟩ => (nomatch found), fun ⟨_, member, _⟩ => (nomatch member)⟩
      joined := fun _ member => nomatch member
      injective := fun _ _ ⟨_, member, _⟩ => nomatch member
      record := fun _ ⟨_, member, _⟩ => nomatch member
      onto := fun id present => by
        change id ∈ r.threadgroupCallbackMap at present
        rw [fresh.noRecords] at present
        exact absurd present (AList.notMem_empty id) }
  links := by
    have none_ : ∀ id, UnorderedMap.subscript r.threadgroupAdjacencyList id = {} := fun id => by
      rw [fresh.noEdges]
      rfl
    refine ⟨fun id id' => ?_, fun id id' => ?_, fun id => ?_, fun id present => ?_⟩
    · rw [none_]
      exact ⟨fun member => (nomatch member), fun ⟨_, _, edge, _⟩ => (nomatch edge)⟩
    · rw [none_]
      exact ⟨fun member => (nomatch member), fun ⟨_, _, edge, _⟩ => (nomatch edge)⟩
    · rw [none_]
      exact List.nodup_nil
    · rw [fresh.noEdges] at present
      exact absurd present (AList.notMem_empty id)
  stands := by
    unfold rootCalls
    rw [List.forall₂_map_left_iff, List.forall₂_map_right_iff, List.forall₂_same]
    exact fun root _ => ⟨rfl, fun _ => ⟨rfl, rfl⟩, fun _ h => (nomatch h), fun _ h => (nomatch h),
      fun _ h => (nomatch h)⟩

/-- **The root loop computes the owners and hand-overs of the depth-first forest.** -/
theorem traverseRoots_refines (fresh : r.Fresh) {stack : Nat} {s : TraversalState}
    (ran : r.traverseRoots stack = .ok s) :
    ∃ forest, r.adjacencyList.DepthFirstForest forest ∧ TraversalState.Refines r s forest [] [] := by
  rw [traverseRoots_eq] at ran
  obtain ⟨forest, ran', refines⟩ := DepthFirst.dfsAll_simulates
    (fun s forest calls firsts => TraversalState.Refines r s forest calls firsts)
    (fun s forest call first rest rest' s' calls refines visited =>
      TraversalState.visit_refines refines visited)
    (fun _ => ()) stack r.rootCalls [] (r.adjacencyList.roots.map (⟨·, none⟩)) [] r.start s [] (by simp [rootCalls]) (by simpa using refines_start fresh) ran
  exact ⟨forest, ⟨stack, ran'⟩, refines⟩

end CallbackRegistry

end PreemptiveExecutor
