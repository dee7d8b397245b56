/-
# Registry.Visited — which callbacks the root loop assigns

The threadgroup id of a callback is its visited mark, so the traversal is a
search (`Theory.Search`) of the followed edges: the root loop assigns exactly the
callbacks that are reached from the roots along them (`traverseRoots_assigned`).
It returns when all of those are registered and the stack is deep enough
(`traverseRoots_returns`).
-/
import PreemptiveExecutor.Theory.Search
import PreemptiveExecutor.Registry.ThreadgroupIds

namespace PreemptiveExecutor

open Theory

set_option autoImplicit false

namespace CallbackRegistry

/-- The callback has a threadgroup. -/
def Assigned (r : CallbackRegistry) (callbackName : String) : Prop :=
  ∃ info, r.callbackMap.lookup callbackName = some info ∧ info.threadgroupId ≠ 0

/-- The state as the root loop starts in it. -/
abbrev start (r : CallbackRegistry) : TraversalState := { toCallbackRegistry := r }

theorem assigned_insert (r : CallbackRegistry) (callbackName : String) (info : CallbackInfo)
    (assigned : info.threadgroupId ≠ 0) (name : String) :
    Assigned { r with callbackMap := r.callbackMap.insert callbackName info } name ↔
      name = callbackName ∨ r.Assigned name := by
  unfold Assigned
  simp only [UnorderedMap.lookup_insert_eq]
  split
  · rename_i same
    simp [same, assigned]
  · rename_i other
    simp [other]

end CallbackRegistry

namespace TraversalState

open CallbackRegistry (Assigned)

variable {s : TraversalState} {name : String} {info : CallbackInfo}

/-- **A callback leaves group assignment with a threadgroup.** -/
theorem assignThreadgroup_assigns (sound : s.Sound) (found : s.callbackMap.lookup name = some info)
    (threadgroupId prevThreadgroupId : Nat) :
    ∃ id, id ≠ 0 ∧ (s.assignThreadgroup name info threadgroupId prevThreadgroupId).2.callbackMap =
      s.callbackMap.insert name { info with threadgroupId := id } := by
  have entered := enterThreadgroup_sound sound found
  have nonzero : (s.enterThreadgroup name info).1 ≠ 0 := by
    obtain ⟨group, atId⟩ := UnorderedMap.mem_iff_lookup.1 entered.present
    exact Nat.ne_of_gt (entered.sound.registry.record _ group atId).2.1
  obtain ⟨callbacks, -⟩ := enterThreadgroup_frame s name info
  by_cases restart : threadgroupId = 0
  · subst restart
    refine ⟨_, nonzero, ?_⟩
    rw [assignThreadgroup_restart, ← callbacks]
    unfold linkThreadgroups
    split <;> rfl
  · cases mutex : info.isMutex with
    | false => exact ⟨threadgroupId, restart, by rw [assignThreadgroup_inherited restart mutex]; rfl⟩
    | true => exact ⟨_, nonzero, by rw [assignThreadgroup_mutex restart mutex, callbacks]⟩

@[simp] theorem pushOnlySuccessor_callbackMap (s : TraversalState) (callbackName : String)
    (threadgroupId : Nat) :
    (s.pushOnlySuccessor callbackName threadgroupId).callbackMap = s.callbackMap := by
  unfold pushOnlySuccessor
  split <;> rfl

/-- A visit of an unassigned callback assigns it, and it alone. -/
theorem visit_assigns {s s' : TraversalState} {call : Call} {calls : List Call} (sound : s.Sound)
    (visited : visit s call = .ok (s', calls)) :
    (s.Assigned call.callbackName ∧ s' = s ∧ calls = []) ∨
      (¬ s.Assigned call.callbackName ∧
        (∀ name, s'.Assigned name ↔ name = call.callbackName ∨ s.Assigned name) ∧
        calls.map Call.callbackName = s.adjacencyList.followed call.callbackName) := by
  rcases visit_ok visited with ⟨info, found, done, rfl, rfl⟩ |
    ⟨info, id, s₁, found, unassigned, assigned, rfl, rfl⟩
  · exact Or.inl ⟨⟨info, found, done⟩, rfl, rfl⟩
  · obtain ⟨id', nonzero, callbacks⟩ := assignThreadgroup_assigns sound found call.threadgroupId
      call.prevThreadgroupId
    have adjacency : s₁.adjacencyList = s.adjacencyList := by
      have frame := (assignThreadgroup_frame s call.callbackName info call.threadgroupId
        call.prevThreadgroupId).2
      rwa [assigned] at frame
    rw [assigned] at callbacks
    refine Or.inr ⟨?_, fun name => ?_, ?_⟩
    · rintro ⟨info', found', done⟩
      rw [found] at found'
      cases found'
      exact done unassigned
    · have inserted := CallbackRegistry.assigned_insert s.toCallbackRegistry call.callbackName
        { info with threadgroupId := id' } nonzero name
      rw [← inserted]
      unfold Assigned
      rw [pushOnlySuccessor_callbackMap, callbacks]
    · rw [nestedCalls, adjacency, List.map_map]
      refine (List.map_congr_left fun next _ => ?_).trans (List.map_id _)
      simp only [Function.comp_apply]
      split <;> rfl

end TraversalState

namespace CallbackRegistry

open TraversalState (visit stackOverflow Call)

/-! ## The traversal as a search -/

/-- The root loop on `r` searches the followed edges of its callback graph. -/
def search (r : CallbackRegistry) : Search visit String where
  node := Call.callbackName
  next := r.adjacencyList.followed
  marked s := s.Assigned
  I s calls := TraversalState.SoundCalls s calls ∧ s.adjacencyList = r.adjacencyList ∧
    UnorderedMap.SameEntries TraversalState.SameCallback r.callbackMap s.callbackMap
  keeps s c rest s' cs inv visited := by
    obtain ⟨calls, adjacency, same⟩ := inv
    obtain ⟨callbacks, adjacency'⟩ := TraversalState.visit_frame visited
    refine ⟨TraversalState.visit_sound s c rest s' cs calls visited, adjacency'.trans adjacency,
      same.trans callbacks fun a b c h₁ h₂ => ?_⟩
    rw [TraversalState.SameCallback, h₂, h₁]
  marks s c rest s' cs inv visited := by
    rw [← inv.2.1]
    exact TraversalState.visit_assigns inv.1.1 visited

variable {r : CallbackRegistry}

theorem search_start (sound : r.Sound) : r.search.I r.start r.rootCalls := by
  refine ⟨⟨⟨sound, fun _ _ recorded => absurd recorded (OrderedMultimap.not_recorded_nil _ _)⟩,
    fun call member => ?_⟩, rfl, UnorderedMap.sameEntries_refl TraversalState.SameCallback.refl _⟩
  obtain ⟨name, -, rfl⟩ := List.mem_map.1 member
  exact ⟨Or.inl rfl, Or.inl rfl⟩

theorem exists_rootCall {P : String → Prop} :
    (∃ call ∈ r.rootCalls, P call.callbackName) ↔ ∃ root ∈ r.adjacencyList.roots, P root := by
  simp [rootCalls]

/-- A callback that the root loop comes to: reached from a root along followed edges. -/
def Visits (r : CallbackRegistry) (callbackName : String) : Prop :=
  ∃ root ∈ r.adjacencyList.roots, Search.Reaches r.adjacencyList.followed root callbackName

/-- **The root loop assigns what it visits**, and nothing else. -/
theorem traverseRoots_assigned (sound : r.Sound) (fresh : ∀ name, ¬ r.Assigned name) {stack : Nat}
    {s : TraversalState} (ran : r.traverseRoots stack = .ok s) (name : String) :
    s.Assigned name ↔ r.Visits name := by
  rw [traverseRoots_eq] at ran
  have marks := Search.marked_iff (search_start sound) (fun n old => absurd old (fresh n)) ran name
  rw [Visits, ← exists_rootCall]
  exact marks.trans (or_iff_right (fresh name))

/-- Also on a registry that an earlier call has left, every root ends with an id. -/
theorem traverseRoots_roots (sound : r.Sound) {stack : Nat} {s : TraversalState}
    (ran : r.traverseRoots stack = .ok s) : ∀ root ∈ r.adjacencyList.roots, s.Assigned root := by
  rw [traverseRoots_eq] at ran
  intro root member
  exact Search.called_marked (search_start sound) ran ⟨root, 0, 0⟩ (List.mem_map_of_mem member)

/-- What goes wrong in a root loop with enough stack: it comes to a callback that
is not registered. -/
theorem traverseRoots_error (sound : r.Sound) {stack : Nat}
    (deep : r.callbackMap.keys.length < stack) {thrown : Thrown}
    (failed : r.traverseRoots stack = .error thrown) :
    ∃ name, r.Visits name ∧ name ∉ r.callbackMap := by
  classical
  rw [traverseRoots_eq] at failed
  obtain ⟨s, call, rest, between, threw⟩ := Search.errors_of_stack r.callbackMap.keys.toFinset
    (search_start sound)
    (fun s c rest s' cs inv visited => by
      have present : c.callbackName ∈ s.callbackMap := by
        rcases TraversalState.visit_ok visited with ⟨info, found, -⟩ | ⟨info, id, s₁, found, -⟩ <;>
          exact UnorderedMap.mem_iff_lookup.2 ⟨info, found⟩
      exact List.mem_toFinset.2 (AList.mem_keys.1 ((inv.2.2.mem_iff _).2 present)))
    (Nat.lt_of_le_of_lt (List.toFinset_card_le _) deep) failed
  refine ⟨call.callbackName, exists_rootCall.1 (between.pendingReached call List.mem_cons_self), ?_⟩
  intro present
  obtain ⟨info, found⟩ := UnorderedMap.mem_iff_lookup.1 ((between.inv.2.2.mem_iff _).1 present)
  unfold visit at threw
  rw [found] at threw
  simp only at threw
  split at threw <;> cases threw

/-- **The root loop returns** when every callback it visits is registered. -/
theorem traverseRoots_returns (sound : r.Sound)
    (registered : ∀ name, r.Visits name → name ∈ r.callbackMap) {stack : Nat}
    (deep : r.callbackMap.keys.length < stack) : ∃ s, r.traverseRoots stack = .ok s := by
  cases ran : r.traverseRoots stack with
  | ok s => exact ⟨s, rfl⟩
  | error thrown =>
      obtain ⟨name, visited, missing⟩ := traverseRoots_error sound deep ran
      exact absurd (registered name visited) missing

end CallbackRegistry

end PreemptiveExecutor
