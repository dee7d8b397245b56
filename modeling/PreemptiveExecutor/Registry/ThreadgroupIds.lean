/-
# Registry.ThreadgroupIds — assigned ids name existing threadgroups

`Sound` relates the four maps the registry keeps by hand: an id assigned to a
callback is a key of `threadgroup_callback_map_` whose record carries the same
id, a mutex group has one threadgroup of its own, marked as such, and its
callbacks are assigned that id and no other.

It holds of a constructed registry, is preserved by every visit of the callback
traversal, by the priority loop and by the thread-count loop, and it also holds
of the registry an error leaves behind, so it holds whatever the calls before
(`callbackThreadgroupAllocation_sound`).
-/
import PreemptiveExecutor.Registry.Traversal

namespace PreemptiveExecutor

open Theory

set_option autoImplicit false

namespace CallbackRegistry

structure Sound (r : CallbackRegistry) : Prop where
  nextIdPos : 0 < r.nextThreadgroupId
  assigned : ∀ name info, r.callbackMap.lookup name = some info → info.threadgroupId ≠ 0 →
    info.threadgroupId ∈ r.threadgroupCallbackMap
  record : ∀ id group, r.threadgroupCallbackMap.lookup id = some group →
    group.threadgroupId = id ∧ 0 < id ∧ id < r.nextThreadgroupId
  mutexRecord : ∀ ptr id, r.mutexThreadgroupMap.lookup ptr = some id →
    ∃ group, r.threadgroupCallbackMap.lookup id = some group ∧ group.isMutexGroup = true
  mutexInjective : ∀ ptr ptr' id, r.mutexThreadgroupMap.lookup ptr = some id →
    r.mutexThreadgroupMap.lookup ptr' = some id → ptr = ptr'
  mutexAssigned : ∀ name info, r.callbackMap.lookup name = some info → info.isMutex = true →
    info.threadgroupId ≠ 0 →
    r.mutexThreadgroupMap.lookup info.callbackGroup.ptr = some info.threadgroupId
  handle : ∀ name info name' info', r.callbackMap.lookup name = some info →
    r.callbackMap.lookup name' = some info' →
    info.entity.rawPointer = info'.entity.rawPointer → name = name'
  edges : ∀ id info, r.threadgroupAdjacencyList.lookup id = some info →
    ∀ next ∈ id :: (info.outgoing ++ info.incoming), next ∈ r.threadgroupCallbackMap

/-- Two records of one threadgroup, as far as ids and mutual exclusion go. -/
def SameThreadgroup (a b : ThreadGroupInfo) : Prop :=
  b.threadgroupId = a.threadgroupId ∧ b.isMutexGroup = a.isMutexGroup

namespace Sound

variable {r : CallbackRegistry}

/-- Soundness does not look at the lists, priorities and thread counts of the
records, nor at the callback graph. -/
theorem of_sameRecords (sound : r.Sound) {r' : CallbackRegistry}
    (callbacks : r'.callbackMap = r.callbackMap) (mutexes : r'.mutexThreadgroupMap = r.mutexThreadgroupMap)
    (next : r'.nextThreadgroupId = r.nextThreadgroupId)
    (links : r'.threadgroupAdjacencyList = r.threadgroupAdjacencyList)
    (records : UnorderedMap.SameEntries SameThreadgroup r.threadgroupCallbackMap r'.threadgroupCallbackMap) :
    r'.Sound where
  nextIdPos := next ▸ sound.nextIdPos
  assigned name info found done := by
    rw [callbacks] at found
    exact (records.mem_iff _).1 (sound.assigned name info found done)
  record id group found := by
    obtain ⟨group', found', same⟩ := records.lookup_left found
    rw [same.1, next]
    exact sound.record id group' found'
  mutexRecord ptr id found := by
    rw [mutexes] at found
    obtain ⟨group, atId, mutex⟩ := sound.mutexRecord ptr id found
    obtain ⟨group', atId', same⟩ := records.lookup_right atId
    exact ⟨group', atId', same.2.trans mutex⟩
  mutexInjective := by rw [mutexes]; exact sound.mutexInjective
  mutexAssigned := by rw [callbacks, mutexes]; exact sound.mutexAssigned
  handle := by rw [callbacks]; exact sound.handle
  edges id info found next member := by
    rw [links] at found
    exact (records.mem_iff _).1 (sound.edges id info found next member)

/-- Writing through the reference of an existing record. -/
theorem update_existing {id : Nat} {f : ThreadGroupInfo → ThreadGroupInfo}
    (m : UnorderedMap Nat ThreadGroupInfo) (present : id ∈ m)
    (same : ∀ group, m.lookup id = some group → SameThreadgroup group (f group)) :
    UnorderedMap.SameEntries SameThreadgroup m (UnorderedMap.update m id f) :=
  UnorderedMap.sameEntries_update (fun _ => ⟨rfl, rfl⟩) present same

/-- A callback is given an existing threadgroup, its own one if it is mutex. -/
theorem setThreadgroupId (sound : r.Sound) {name : String} {info : CallbackInfo} {id : Nat}
    (found : r.callbackMap.lookup name = some info) (present : id ∈ r.threadgroupCallbackMap)
    (own : info.isMutex = true → r.mutexThreadgroupMap.lookup info.callbackGroup.ptr = some id) :
    Sound { r with callbackMap := r.callbackMap.insert name { info with threadgroupId := id } } where
  nextIdPos := sound.nextIdPos
  assigned name' info' found' done := by
    rw [UnorderedMap.lookup_insert_eq] at found'
    split at found'
    · cases found'; exact present
    · exact sound.assigned name' info' found' done
  record := sound.record
  mutexRecord := sound.mutexRecord
  mutexInjective := sound.mutexInjective
  mutexAssigned name' info' found' mutex done := by
    rw [UnorderedMap.lookup_insert_eq] at found'
    split at found'
    · cases found'; exact own mutex
    · exact sound.mutexAssigned name' info' found' mutex done
  handle name₁ info₁ name₂ info₂ found₁ found₂ same := by
    have old : ∀ name' info', (r.callbackMap.insert name { info with threadgroupId := id }).lookup name' =
        some info' → ∃ info₀, r.callbackMap.lookup name' = some info₀ ∧ info₀.entity = info'.entity := by
      intro name' info' found'
      rw [UnorderedMap.lookup_insert_eq] at found'
      split at found'
      · rename_i h; cases found'; exact ⟨info, h ▸ found, rfl⟩
      · exact ⟨info', found', rfl⟩
    obtain ⟨old₁, at₁, same₁⟩ := old name₁ info₁ found₁
    obtain ⟨old₂, at₂, same₂⟩ := old name₂ info₂ found₂
    exact sound.handle name₁ old₁ name₂ old₂ at₁ at₂ (by rw [same₁, same₂, same])
  edges := sound.edges

/-- The counter's next value names no record yet. -/
theorem fresh (sound : r.Sound) : r.nextThreadgroupId ∉ r.threadgroupCallbackMap := by
  intro present
  obtain ⟨group, found⟩ := UnorderedMap.mem_iff_lookup.1 present
  exact absurd (sound.record _ group found).2.2 (Nat.lt_irrefl _)

/-- A threadgroup is opened under the counter's next value: with the callback
group it serves, if that is a mutex group without a threadgroup. -/
theorem openThreadgroup (sound : r.Sound) (mutexGroup : Option Ptr)
    (without : ∀ ptr, mutexGroup = some ptr → r.mutexThreadgroupMap.lookup ptr = none)
    (group : ThreadGroupInfo) (id : group.threadgroupId = r.nextThreadgroupId)
    (flag : group.isMutexGroup = mutexGroup.isSome) :
    Sound { r with
      nextThreadgroupId := r.nextThreadgroupId + 1
      mutexThreadgroupMap := match mutexGroup with
        | some ptr => r.mutexThreadgroupMap.insert ptr r.nextThreadgroupId
        | none => r.mutexThreadgroupMap
      threadgroupCallbackMap := r.threadgroupCallbackMap.insert r.nextThreadgroupId group } where
  nextIdPos := Nat.succ_pos _
  assigned name info found done :=
    (AList.mem_insert _).2 (Or.inr (sound.assigned name info found done))
  record id' group' found := by
    rw [UnorderedMap.lookup_insert_eq] at found
    split at found
    · rename_i h
      cases found
      exact ⟨id.trans h.symm, h ▸ sound.nextIdPos, by rw [h]; exact Nat.lt_succ_self _⟩
    · obtain ⟨same, pos, lt⟩ := sound.record id' group' found
      exact ⟨same, pos, Nat.lt_succ_of_lt lt⟩
  mutexRecord ptr id' found := by
    have old : r.mutexThreadgroupMap.lookup ptr = some id' →
        ∃ group', (r.threadgroupCallbackMap.insert r.nextThreadgroupId group).lookup id' = some group' ∧
          group'.isMutexGroup = true := by
      intro found
      obtain ⟨group', atId, mutex⟩ := sound.mutexRecord ptr id' found
      refine ⟨group', ?_, mutex⟩
      rw [UnorderedMap.lookup_insert_eq, if_neg, atId]
      rintro rfl
      exact sound.fresh (UnorderedMap.mem_iff_lookup.2 ⟨group', atId⟩)
    cases mutexGroup with
    | none => exact old found
    | some own =>
        simp only [UnorderedMap.lookup_insert_eq] at found
        split at found
        · cases found
          exact ⟨group, AList.lookup_insert _, flag⟩
        · exact old found
  mutexInjective ptr ptr' id' found found' := by
    have below : ∀ ptr id', r.mutexThreadgroupMap.lookup ptr = some id' → id' ≠ r.nextThreadgroupId := by
      rintro ptr id' found rfl
      obtain ⟨group', atId, -⟩ := sound.mutexRecord ptr _ found
      exact sound.fresh (UnorderedMap.mem_iff_lookup.2 ⟨group', atId⟩)
    cases mutexGroup with
    | none => exact sound.mutexInjective ptr ptr' id' found found'
    | some own =>
        simp only [UnorderedMap.lookup_insert_eq] at found found'
        split at found <;> split at found'
        · simp_all
        · cases found; exact absurd rfl (below _ _ found')
        · cases found'; exact absurd rfl (below _ _ found)
        · exact sound.mutexInjective ptr ptr' id' found found'
  mutexAssigned name info found mutex done := by
    have old := sound.mutexAssigned name info found mutex done
    cases mutexGroup with
    | none => exact old
    | some own =>
        simp only [UnorderedMap.lookup_insert_eq]
        rw [if_neg, old]
        intro h
        rw [h, without own rfl] at old
        cases old
  handle := sound.handle
  edges id' info found next member := (AList.mem_insert _).2 (Or.inr (sound.edges id' info found next member))

/-- An edge between two existing threadgroups. -/
theorem link (sound : r.Sound) {prev new : Nat} (present : prev ∈ r.threadgroupCallbackMap)
    (present' : new ∈ r.threadgroupCallbackMap) :
    Sound { r with
      threadgroupAdjacencyList :=
        UnorderedMap.update
          (UnorderedMap.update r.threadgroupAdjacencyList prev fun info =>
            { info with outgoing := info.outgoing.insert new })
          new fun info => { info with incoming := info.incoming.insert prev } } := by
  have old : ∀ id, ∀ next ∈ (UnorderedMap.subscript r.threadgroupAdjacencyList id).outgoing ++
      (UnorderedMap.subscript r.threadgroupAdjacencyList id).incoming, next ∈ r.threadgroupCallbackMap := by
    intro id next member
    cases found : r.threadgroupAdjacencyList.lookup id with
    | none =>
        rw [UnorderedMap.subscript, found] at member
        cases member
    | some info =>
        rw [UnorderedMap.subscript_of_lookup found] at member
        exact sound.edges id info found next (List.mem_cons_of_mem _ member)
  refine { sound with edges := fun id info found next member => ?_ }
  simp only [UnorderedMap.lookup_update, UnorderedMap.subscript_update] at found
  have oldNew := old new next
  have oldPrev := old prev next
  have oldId := fun found => sound.edges id info found next member
  split at found
  · rename_i h
    subst h
    cases found
    split at member <;> simp_all [List.mem_insert_iff] <;> grind
  · split at found
    · rename_i h
      subst h
      cases found
      simp_all [List.mem_insert_iff]
      grind
    · exact oldId found

end Sound

end CallbackRegistry

namespace TraversalState

/-! ## A visit keeps the registry sound -/

/-- A sound registry whose deadline map records existing threadgroups. -/
structure Sound (s : TraversalState) : Prop where
  registry : s.toCallbackRegistry.Sound
  deadlines : ∀ deadline id, OrderedMultimap.Recorded s.deadlineToThreadgroupIdMap deadline id →
    id ∈ s.threadgroupCallbackMap

/-- What assigning a threadgroup establishes: the state stays sound, the records
stay, and the id the traversal goes on with is one of them. -/
structure AssignedSoundly (s : TraversalState) (assigned : Nat × TraversalState) : Prop where
  sound : assigned.2.Sound
  present : assigned.1 ∈ assigned.2.threadgroupCallbackMap
  grows : ∀ id ∈ s.threadgroupCallbackMap, id ∈ assigned.2.threadgroupCallbackMap

variable {s : TraversalState} {name : String} {info : CallbackInfo}

/-- Recording a deadline for a threadgroup that exists. -/
theorem Sound.record (sound : s.Sound) {r : CallbackRegistry} (changed : r.Sound)
    (grows : ∀ id ∈ s.threadgroupCallbackMap, id ∈ r.threadgroupCallbackMap) {id : Nat}
    (present : id ∈ r.threadgroupCallbackMap) (deadline : Uint32) :
    Sound { toCallbackRegistry := r
            deadlineToThreadgroupIdMap :=
              OrderedMultimap.pushBack deadline id s.deadlineToThreadgroupIdMap } where
  registry := changed
  deadlines deadline' id' recorded := by
    rcases OrderedMultimap.recorded_pushBack.1 recorded with ⟨-, rfl⟩ | old
    · exact present
    · exact grows _ (sound.deadlines deadline' id' old)

theorem enterThreadgroup_sound (sound : s.Sound) (found : s.callbackMap.lookup name = some info) :
    AssignedSoundly s (s.enterThreadgroup name info) := by
  by_cases known : info.isMutex = true ∧ ∃ id, s.mutexThreadgroupMap.lookup info.callbackGroup.ptr = some id
  · obtain ⟨mutex, id, known⟩ := known
    obtain ⟨group, atId, -⟩ := sound.registry.mutexRecord _ _ known
    have present : id ∈ s.threadgroupCallbackMap := UnorderedMap.mem_iff_lookup.2 ⟨group, atId⟩
    rw [TraversalState.enterThreadgroup_existing mutex known]
    have joined := CallbackRegistry.Sound.update_existing
      (f := fun group => { group with callbacks := group.callbacks ++ [name], threadgroupId := id })
      s.threadgroupCallbackMap present fun group' atId' =>
        ⟨(sound.registry.record id group' atId').1.symm, rfl⟩
    have recorded : CallbackRegistry.Sound { s.toCallbackRegistry with
        threadgroupCallbackMap := UnorderedMap.update s.threadgroupCallbackMap id fun group =>
          { group with callbacks := group.callbacks ++ [name], threadgroupId := id } } :=
      sound.registry.of_sameRecords rfl rfl rfl rfl joined
    have still := (joined.mem_iff id).1 present
    have grows := fun id' => (joined.mem_iff id').1
    exact ⟨sound.record (recorded.setThreadgroupId found still fun _ => known) grows still _, still, grows⟩
  · have without : info.isMutex = true → s.mutexThreadgroupMap.lookup info.callbackGroup.ptr = none := by
      intro mutex
      cases at_ : s.mutexThreadgroupMap.lookup info.callbackGroup.ptr with
      | none => rfl
      | some id => exact absurd ⟨mutex, id, at_⟩ known
    rw [TraversalState.enterThreadgroup_new without sound.registry.fresh]
    have still : s.nextThreadgroupId ∈ s.threadgroupCallbackMap.insert s.nextThreadgroupId
        (openedRecord s.nextThreadgroupId name info) := (AList.mem_insert _).2 (Or.inl rfl)
    have grows : ∀ id ∈ s.threadgroupCallbackMap, id ∈ s.threadgroupCallbackMap.insert
        s.nextThreadgroupId (openedRecord s.nextThreadgroupId name info) := fun id member =>
      (AList.mem_insert _).2 (Or.inr member)
    cases mutex : info.isMutex with
    | false =>
        have opened := sound.registry.openThreadgroup none (by simp)
          (openedRecord s.nextThreadgroupId name info) rfl mutex
        exact ⟨sound.record (opened.setThreadgroupId found still (by simp [mutex])) grows still _,
          still, grows⟩
    | true =>
        have opened := sound.registry.openThreadgroup (some info.callbackGroup.ptr)
          (fun ptr h => by cases h; exact without mutex) (openedRecord s.nextThreadgroupId name info)
          rfl mutex
        exact ⟨sound.record (opened.setThreadgroupId found still fun _ => AList.lookup_insert _) grows
          still _, still, grows⟩

theorem linkThreadgroups_sound (sound : s.Sound) {prev new : Nat}
    (present : prev = 0 ∨ prev ∈ s.threadgroupCallbackMap) (present' : new ∈ s.threadgroupCallbackMap) :
    (s.linkThreadgroups prev new).Sound := by
  unfold linkThreadgroups
  split
  · exact sound
  · rename_i nonzero
    exact ⟨sound.registry.link (present.resolve_left nonzero) present', sound.deadlines⟩

@[simp] theorem linkThreadgroups_threadgroupCallbackMap (s : TraversalState) (prev new : Nat) :
    (s.linkThreadgroups prev new).threadgroupCallbackMap = s.threadgroupCallbackMap := by
  unfold linkThreadgroups
  split <;> rfl

theorem assignThreadgroup_sound (sound : s.Sound) (found : s.callbackMap.lookup name = some info)
    {threadgroupId prevThreadgroupId : Nat}
    (inherited : threadgroupId = 0 ∨ threadgroupId ∈ s.threadgroupCallbackMap)
    (prev : prevThreadgroupId = 0 ∨ prevThreadgroupId ∈ s.threadgroupCallbackMap) :
    AssignedSoundly s (s.assignThreadgroup name info threadgroupId prevThreadgroupId) := by
  have entered := enterThreadgroup_sound sound found
  by_cases restart : threadgroupId = 0
  · subst restart
    rw [assignThreadgroup_restart]
    exact ⟨linkThreadgroups_sound entered.sound (prev.imp_right (entered.grows _)) entered.present,
      by simpa using entered.present, by simpa using entered.grows⟩
  · have present := inherited.resolve_left restart
    cases mutex : info.isMutex with
    | false =>
        rw [assignThreadgroup_inherited restart mutex]
        exact ⟨⟨sound.registry.setThreadgroupId found present (by simp [mutex]), sound.deadlines⟩, present,
          fun _ member => member⟩
    | true =>
        rw [assignThreadgroup_mutex restart mutex]
        exact ⟨entered.sound, entered.grows _ present, entered.grows⟩

/-- The push of an only successor writes to the list of an existing record. -/
theorem pushOnlySuccessor_sound (sound : s.Sound) {id : Nat} (present : id ∈ s.threadgroupCallbackMap)
    (callbackName : String) :
    (s.pushOnlySuccessor callbackName id).Sound ∧
      ∀ id', id' ∈ (s.pushOnlySuccessor callbackName id).threadgroupCallbackMap ↔
        id' ∈ s.threadgroupCallbackMap := by
  unfold pushOnlySuccessor
  split
  · rename_i next _
    have pushed := CallbackRegistry.Sound.update_existing
      (f := fun info => { info with callbacks := info.callbacks ++ [next] })
      s.threadgroupCallbackMap present fun _ _ => ⟨rfl, rfl⟩
    exact ⟨⟨sound.registry.of_sameRecords rfl rfl rfl rfl pushed,
        fun deadline id' recorded => (pushed.mem_iff _).1 (sound.deadlines deadline id' recorded)⟩,
      fun id' => (pushed.mem_iff id').symm⟩
  · exact ⟨sound, fun _ => Iff.rfl⟩

/-- The ids a pending call carries: existing threadgroups, or 0 for none. -/
def Call.Present (s : TraversalState) (call : Call) : Prop :=
  (call.threadgroupId = 0 ∨ call.threadgroupId ∈ s.threadgroupCallbackMap) ∧
    (call.prevThreadgroupId = 0 ∨ call.prevThreadgroupId ∈ s.threadgroupCallbackMap)

/-- The invariant of the traversal. -/
def SoundCalls (s : TraversalState) (calls : List Call) : Prop :=
  s.Sound ∧ ∀ call ∈ calls, call.Present s

theorem visit_sound (s : TraversalState) (call : Call) (rest : List Call) (s' : TraversalState)
    (calls : List Call) (inv : SoundCalls s (call :: rest)) (visited : visit s call = .ok (s', calls)) :
    SoundCalls s' (calls ++ rest) := by
  obtain ⟨sound, ids⟩ := inv
  rcases visit_ok visited with ⟨info, -, -, rfl, rfl⟩ | ⟨info, id, s₁, found, -, assigned, rfl, rfl⟩
  · exact ⟨sound, fun c member => ids c (List.mem_cons_of_mem _ member)⟩
  · obtain ⟨inherited, prev⟩ := ids call List.mem_cons_self
    have step := assignThreadgroup_sound sound found inherited prev
    rw [assigned] at step
    obtain ⟨pushed, records⟩ := pushOnlySuccessor_sound step.sound step.present call.callbackName
    have present : ∀ id', id' = 0 ∨ id' ∈ s.threadgroupCallbackMap →
        id' = 0 ∨ id' ∈ (s₁.pushOnlySuccessor call.callbackName id).threadgroupCallbackMap :=
      fun id' => Or.imp_right fun member => (records id').2 (step.grows id' member)
    have current := Or.inr (a := id = 0) ((records id).2 step.present)
    refine ⟨pushed, fun c member => ?_⟩
    rcases List.mem_append.1 member with nested | pending
    · obtain ⟨next, -, rfl⟩ := List.mem_map.1 nested
      split
      · exact ⟨current, present _ prev⟩
      · exact ⟨Or.inl rfl, current⟩
    · exact (ids c (List.mem_cons_of_mem _ pending)).imp (present _) (present _)

end TraversalState

end PreemptiveExecutor
