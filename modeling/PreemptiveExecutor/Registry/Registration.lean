/-
# Registry.Registration — registered entities and their `callback_map_` entries

`register_callback_name` keys its map by the entity; the constructor turns that
around and keys `callback_map_` by the name, with an `emplace` that keeps the
entry already there.  Nothing compares names at registration, so of two entities
registered under one name only the first one scanned gets an entry, and the other
one is later missing from the exported handle map.

`registered_represented_iff` says that this is the only way an entity can go
missing.
-/
import PreemptiveExecutor.Theory.Loop
import PreemptiveExecutor.Registry.Export

namespace PreemptiveExecutor

open Theory

set_option autoImplicit false

/-- `register_callback_name`. -/
def registerCallbackName (preRegistered : PreRegisteredNames) (entity : CallbackEntity) (name : String) :
    Except Error PreRegisteredNames :=
  if name.isEmpty then .error (.runtimeError "Callback name is empty")
  else if entity.rawPointer ∈ preRegistered then .error (.runtimeError "Callback already registered")
  else .ok (preRegistered.insert entity.rawPointer name)

structure Registration where
  entity : CallbackEntity
  name : String

/-- The names after a sequence of calls, none of which throws. -/
def registerAll (calls : List Registration) : Except Error PreRegisteredNames :=
  calls.foldlM (fun preRegistered call => registerCallbackName preRegistered call.entity call.name) ∅

/-- One of the calls registers the entity under this name. -/
def RegisteredAs (calls : List Registration) (entity : CallbackEntity) (name : String) : Prop :=
  ∃ call ∈ calls, call.entity.rawPointer = entity.rawPointer ∧ call.name = name

/-! ## The names -/

theorem registerCallbackName_ok {preRegistered preRegistered' : PreRegisteredNames} {call : Registration}
    (registered : registerCallbackName preRegistered call.entity call.name = .ok preRegistered')
    (ptr : Ptr) (name : String) :
    preRegistered'.lookup ptr = some name ↔
      preRegistered.lookup ptr = some name ∨ call.entity.rawPointer = ptr ∧ call.name = name := by
  unfold registerCallbackName at registered
  by_cases empty : call.name.isEmpty
  · rw [if_pos empty] at registered; cases registered
  · rw [if_neg empty] at registered
    by_cases present : call.entity.rawPointer ∈ preRegistered
    · rw [if_pos present] at registered; cases registered
    · rw [if_neg present] at registered
      cases registered
      rw [UnorderedMap.lookup_insert_eq]
      by_cases same : ptr = call.entity.rawPointer
      · subst same
        simp [AList.lookup_eq_none.2 present]
      · have other : call.entity.rawPointer ≠ ptr := fun h => same h.symm
        simp [same, other]

theorem registerAll_lookup {calls : List Registration} {preRegistered : PreRegisteredNames}
    (registered : registerAll calls = .ok preRegistered) (entity : CallbackEntity) (name : String) :
    preRegistered.lookup entity.rawPointer = some name ↔ RegisteredAs calls entity name := by
  have ran : ∀ (calls : List Registration) (start : PreRegisteredNames),
      calls.foldlM (fun preRegistered call => registerCallbackName preRegistered call.entity call.name)
        start = .ok preRegistered →
      (preRegistered.lookup entity.rawPointer = some name ↔
        start.lookup entity.rawPointer = some name ∨ RegisteredAs calls entity name) := by
    intro calls
    induction calls with
    | nil => intro start ran; cases ran; simp [RegisteredAs]
    | cons call calls ih =>
        intro start ran
        rw [List.foldlM_cons] at ran
        cases first : registerCallbackName start call.entity call.name with
        | error error => rw [first] at ran; cases ran
        | ok next =>
            rw [first] at ran
            rw [ih next ran, registerCallbackName_ok first, or_assoc]
            simp [RegisteredAs]
  have all := ran calls ∅ registered
  rw [all, AList.lookup_empty]
  simp

namespace CallbackRegistry

/-- The entity has an entry of its own. -/
def Represents (r : CallbackRegistry) (entity : CallbackEntity) : Prop :=
  ∃ name info, r.callbackMap.lookup name = some info ∧ info.entity.rawPointer = entity.rawPointer

/-- Every allocation on the registry that returns has a threadgroup for the
entity. -/
def Exported (r : CallbackRegistry) (entity : CallbackEntity) : Prop :=
  ∀ order stack timing r', r.callbackThreadgroupAllocation order stack = .ok (timing, r') →
    entity.rawPointer ∈ timing.callbackHandleToThreadgroupId

/-! ## The scan -/

section Construct

variable {preRegistered : PreRegisteredNames} {weakGroupsToNodes : WeakCallbackGroupsToNodesMap}
  {userChains : List UserChain} {r : CallbackRegistry}

theorem registerCallbackEntity_keeps (group : CallbackGroup) (node : Ptr) (entity : CallbackEntity)
    {callbackMap : UnorderedMap String CallbackInfo} {name : String} (present : name ∈ callbackMap) :
    name ∈ registerCallbackEntity preRegistered group node callbackMap entity := by
  unfold registerCallbackEntity UnorderedMap.emplace
  cases preRegistered.lookup entity.rawPointer with
  | none => exact present
  | some callbackName =>
      simp only
      by_cases taken : callbackName ∈ callbackMap
      · rw [if_pos taken]; exact present
      · rw [if_neg taken]; exact (AList.mem_insert _).2 (Or.inr present)

theorem registerCallbackEntity_sets (group : CallbackGroup) (node : Ptr) {entity : CallbackEntity}
    {name : String} (named : preRegistered.lookup entity.rawPointer = some name)
    (callbackMap : UnorderedMap String CallbackInfo) :
    name ∈ registerCallbackEntity preRegistered group node callbackMap entity := by
  unfold registerCallbackEntity UnorderedMap.emplace
  simp only [named]
  by_cases taken : name ∈ callbackMap
  · rw [if_pos taken]; exact taken
  · rw [if_neg taken]; exact (AList.mem_insert _).2 (Or.inl rfl)

theorem scanGroup_keeps (entry : WeakGroupEntry) {callbackMap : UnorderedMap String CallbackInfo}
    {name : String} (present : name ∈ callbackMap) : name ∈ scanGroup preRegistered callbackMap entry := by
  unfold scanGroup
  split
  · split
    · rename_i group node _ _ _
      exact List.foldlRecOn (motive := fun callbackMap => name ∈ callbackMap) group.collectAllPtrs _ present
        fun _ kept entity _ => registerCallbackEntity_keeps group node entity kept
    · exact present
  · exact present

/-- The name of an entity that the scan finds is taken, by it or by another one. -/
theorem construct_names (constructed : construct preRegistered weakGroupsToNodes userChains = .ok r)
    {entity : CallbackEntity} (found : FoundIn weakGroupsToNodes entity) {name : String}
    (named : preRegistered.lookup entity.rawPointer = some name) : name ∈ r.callbackMap := by
  obtain ⟨group, node, listed, takeable, member⟩ := found
  obtain ⟨adjacencyList, -, rfl⟩ := construct_ok constructed
  have here : ∀ callbackMap, name ∈ scanGroup preRegistered callbackMap ⟨some group, some node⟩ := by
    intro callbackMap
    simp only [scanGroup, takeable, ↓reduceIte]
    exact Loop.foldl_establishes (fun callbackMap => name ∈ callbackMap) member
      (registerCallbackEntity_sets group node named)
      (fun _ other _ present => registerCallbackEntity_keeps group node other present) callbackMap
  exact Loop.foldl_establishes (fun callbackMap => name ∈ callbackMap) listed here
    (fun _ entry _ present => scanGroup_keeps entry present) ∅

/-- Whoever has an entry was found by the scan. -/
theorem construct_found (constructed : construct preRegistered weakGroupsToNodes userChains = .ok r)
    {name : String} {info : CallbackInfo} (at_ : r.callbackMap.lookup name = some info) :
    FoundIn weakGroupsToNodes info.entity := by
  refine construct_rule (fun callbackMap => ∀ name info, callbackMap.lookup name = some info →
      FoundIn weakGroupsToNodes info.entity)
    (fun _ _ found => nomatch found) ?_ constructed name info at_
  intro callbackMap group node entity listed takeable member inv name info at_
  unfold registerCallbackEntity at at_
  cases named : preRegistered.lookup entity.rawPointer with
  | none => rw [named] at at_; exact inv name info at_
  | some callbackName =>
      rw [named] at at_
      simp only [UnorderedMap.lookup_emplace] at at_
      split at at_
      · cases at_
        exact ⟨group, node, listed, takeable, member⟩
      · exact inv name info at_

end Construct

/-! ## Representation -/

theorem Represents.exported {r : CallbackRegistry} (sound : r.Sound) {entity : CallbackEntity}
    (represented : r.Represents entity) : r.Exported entity := by
  intro order stack timing r' returned
  obtain ⟨name, info, at_, own⟩ := represented
  obtain ⟨final, from_, exports, -⟩ := callbackThreadgroupAllocation_exports sound returned
  obtain ⟨info', at', same⟩ := from_.callbacks.lookup_right at_
  refine UnorderedMap.mem_iff_lookup.2 ⟨info'.threadgroupId, (exports.handles _ _).2 ⟨name, info', at', ?_, rfl⟩⟩
  rw [← own, same]

/-- **Every registered entity is represented exactly if no two of them share a
name**: the entities that the scan finds and that were registered have their own
`callback_map_` entry, and their handle in the maps of every allocation that
returns, unless two of them with different pointers have one name. -/
theorem registered_represented_iff {calls : List Registration} {preRegistered : PreRegisteredNames}
    {weakGroupsToNodes : WeakCallbackGroupsToNodesMap} {userChains : List UserChain} {r : CallbackRegistry}
    (registered : registerAll calls = .ok preRegistered)
    (constructed : construct preRegistered weakGroupsToNodes userChains = .ok r) :
    (∀ entity name, FoundIn weakGroupsToNodes entity → RegisteredAs calls entity name →
      r.Represents entity ∧ r.Exported entity) ↔
    ∀ entity entity' name, FoundIn weakGroupsToNodes entity → FoundIn weakGroupsToNodes entity' →
      RegisteredAs calls entity name → RegisteredAs calls entity' name →
      entity.rawPointer = entity'.rawPointer := by
  have names := registerAll_lookup registered
  have scanned := (construct_scanned constructed).1
  constructor
  · intro represented entity entity' name found found' named named'
    obtain ⟨⟨own, info, at_, same⟩, -⟩ := represented entity name found named
    obtain ⟨⟨own', info', at', same'⟩, -⟩ := represented entity' name found' named'
    -- an entry stands under the name its entity was registered with
    have underName : ∀ {e : CallbackEntity} {n : String} {i : CallbackInfo},
        r.callbackMap.lookup n = some i → i.entity.rawPointer = e.rawPointer →
        RegisteredAs calls e name → n = name := by
      intro e n i at_ same named
      have stored := (scanned n i at_).1
      rw [same, (names e name).2 named] at stored
      exact (Option.some.inj stored).symm
    obtain rfl := underName at_ same named
    obtain rfl := underName at' same' named'
    rw [at_] at at'
    cases at'
    exact same.symm.trans same'
  · intro distinct entity name found named
    obtain ⟨info, at_⟩ := UnorderedMap.mem_iff_lookup.1
      (construct_names constructed found ((names entity name).2 named))
    have registeredAs := (names info.entity name).1 (scanned name info at_).1
    have own := distinct info.entity entity name (construct_found constructed at_) found registeredAs named
    have represented : r.Represents entity := ⟨name, info, at_, own⟩
    exact ⟨represented, represented.exported (construct_sound constructed)⟩

end CallbackRegistry

/-! ### Two registrations -/

/-- One reentrant group with three subscriptions. -/
def registeredGroups : WeakCallbackGroupsToNodesMap :=
  [⟨some { ptr := 1, type := .reentrant, canBeTakenFrom := true, subscriptions := [11, 12, 13],
           services := [], clients := [], timers := [], waitables := [] }, some 100⟩]

def registeredChains : List UserChain :=
  [{ chainName := "control", callbacks := ["sense", "act"], deadline := 10, period := 5 }]

theorem foundIn_registeredGroups {ptr : Ptr} (member : ptr ∈ [11, 12, 13]) :
    FoundIn registeredGroups ⟨.subscription, ptr⟩ :=
  ⟨_, 100, List.mem_cons_self, rfl, by
    show _ ∈ List.map _ _ ++ _ ++ _ ++ _ ++ _
    simp only [List.mem_append]
    exact Or.inl (Or.inl (Or.inl (Or.inl (List.mem_map.2 ⟨ptr, member, rfl⟩))))⟩

/-- Two subscriptions with names of their own. -/
theorem registered_represented_distinct :
    ∃ preRegistered r,
      registerAll [⟨⟨.subscription, 11⟩, "sense"⟩, ⟨⟨.subscription, 12⟩, "act"⟩] = .ok preRegistered ∧
      CallbackRegistry.construct preRegistered registeredGroups registeredChains = .ok r ∧
      r.Represents ⟨.subscription, 12⟩ ∧ r.Exported ⟨.subscription, 12⟩ := by
  obtain ⟨preRegistered, registered, runs⟩ := Loop.exists_ok_of_any
    (x := registerAll [⟨⟨.subscription, 11⟩, "sense"⟩, ⟨⟨.subscription, 12⟩, "act"⟩])
    (p := fun names => (CallbackRegistry.construct names registeredGroups registeredChains).toOption.isSome)
    (by decide)
  cases constructed : CallbackRegistry.construct preRegistered registeredGroups registeredChains with
  | error error => rw [constructed] at runs; cases runs
  | ok r =>
      refine ⟨preRegistered, r, registered, constructed,
        (CallbackRegistry.registered_represented_iff registered constructed).2 ?_
          ⟨.subscription, 12⟩ "act" (foundIn_registeredGroups (by decide))
          ⟨_, List.mem_cons_of_mem _ List.mem_cons_self, rfl, rfl⟩⟩
      rintro entity entity' name - - ⟨call, member, own, named⟩ ⟨call', member', own', named'⟩
      rw [← own, ← own']
      simp only [List.mem_cons, List.not_mem_nil, or_false] at member member'
      rcases member with rfl | rfl <;> rcases member' with rfl | rfl
      · rfl
      · exact absurd (named.trans named'.symm) (by decide)
      · exact absurd (named.trans named'.symm) (by decide)
      · rfl

/-- **Two entities registered under one name**: both calls return, the second
subscription has no entry, and an allocation that returns has no threadgroup for
it. -/
theorem registered_sameName_lost :
    ∃ preRegistered r timing r',
      registerAll [⟨⟨.subscription, 11⟩, "sense"⟩, ⟨⟨.subscription, 12⟩, "sense"⟩,
        ⟨⟨.subscription, 13⟩, "act"⟩] = .ok preRegistered ∧
      CallbackRegistry.construct preRegistered registeredGroups registeredChains = .ok r ∧
      r.callbackThreadgroupAllocation .stored 8 = .ok (timing, r') ∧
      FoundIn registeredGroups ⟨.subscription, 12⟩ ∧
      ¬ r.Represents ⟨.subscription, 12⟩ ∧ 12 ∉ timing.callbackHandleToThreadgroupId := by
  obtain ⟨preRegistered, registered, runs⟩ := Loop.exists_ok_of_any
    (x := registerAll [⟨⟨.subscription, 11⟩, "sense"⟩, ⟨⟨.subscription, 12⟩, "sense"⟩,
      ⟨⟨.subscription, 13⟩, "act"⟩])
    (p := fun names => (CallbackRegistry.construct names registeredGroups registeredChains).toOption.any
      fun r => (r.callbackMap.entries.all fun entry => entry.2.entity.rawPointer != 12) &&
        (r.callbackThreadgroupAllocation .stored 8).toOption.any fun result =>
          decide (12 ∉ result.1.callbackHandleToThreadgroupId))
    (by decide)
  obtain ⟨r, constructed, both⟩ := Loop.exists_ok_of_any runs
  obtain ⟨others, runs⟩ := (Bool.and_eq_true _ _).mp both
  obtain ⟨⟨timing, r'⟩, returned, absent⟩ := Loop.exists_ok_of_any runs
  refine ⟨preRegistered, r, timing, r', registered, constructed, returned,
    foundIn_registeredGroups (by decide), ?_, of_decide_eq_true absent⟩
  rintro ⟨name, info, at_, own⟩
  have other := List.all_eq_true.1 others ⟨name, info⟩ (UnorderedMap.mem_entries_iff.2 at_)
  simp only [bne_iff_ne, ne_eq] at other
  exact other own

end PreemptiveExecutor
