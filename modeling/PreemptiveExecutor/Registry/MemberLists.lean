/-
# Registry.MemberLists — the member lists and the assigned ids

A callback is appended to the list of its threadgroup when it comes to it, and to
the list of its predecessor's when that one has no other successor, before its own
threadgroup is known.  The two keep in step only where the second push stands for
the first: at a callback that inherits its threadgroup from the one predecessor
whose only successor it is.  `ListedOnce` says so of the forest, and
`listsAgree_iff` that nothing else can keep lists and ids in step.
-/
import PreemptiveExecutor.Registry.Records

namespace PreemptiveExecutor

open Theory

set_option autoImplicit false

/-- In a list without repetitions a property holds once if it holds of one element only. -/
theorem countP_eq_one_iff {α : Type} {l : List α} (nodup : l.Nodup) (p : α → Bool) :
    l.countP p = 1 ↔ ∃ a ∈ l, p a = true ∧ ∀ b ∈ l, p b = true → b = a := by
  rw [List.countP_eq_length_filter, List.length_eq_one_iff]
  constructor
  · rintro ⟨a, one⟩
    have only : ∀ b, b ∈ l ∧ p b = true ↔ b = a := fun b => by
      rw [← List.mem_filter, one, List.mem_singleton]
    exact ⟨a, ((only a).2 rfl).1, ((only a).2 rfl).2, fun b member holds => (only b).1 ⟨member, holds⟩⟩
  · rintro ⟨a, member, holds, only⟩
    refine ⟨a, List.perm_singleton.1 ((List.perm_ext_iff_of_nodup (nodup.filter p) (List.nodup_singleton a)).2
      fun b => ?_)⟩
    rw [List.mem_filter, List.mem_singleton]
    exact ⟨fun ⟨member, holds⟩ => only b member holds, fun same => same ▸ ⟨member, holds⟩⟩

namespace CallbackRegistry

/-- Every callback is in the list of its threadgroup once, and in no other list. -/
def ListsAgree (s : TraversalState) : Prop :=
  ∀ id ∈ s.threadgroupCallbackMap, ∀ name info, s.callbackMap.lookup name = some info →
    (s.callbacksOf id).count name = if info.threadgroupId = id then 1 else 0

/-- A callback that comes to a threadgroup is nobody's only successor, and one that
inherits its threadgroup is the only successor of one callback, with that threadgroup. -/
def ListedOnce (r : CallbackRegistry) (forest : Forest) : Prop :=
  ∀ call ∈ forest,
    if r.opens call = true then
      ∀ before ∈ forest, r.adjacencyList.onlySuccessor before.callbackName ≠ some call.callbackName
    else ∃ before ∈ forest, r.adjacencyList.onlySuccessor before.callbackName = some call.callbackName ∧
      r.carries forest before.callbackName = r.carries forest call.callbackName ∧
      ∀ before' ∈ forest,
        r.adjacencyList.onlySuccessor before'.callbackName = some call.callbackName → before' = before

instance (r : CallbackRegistry) (forest : Forest) : Decidable (r.ListedOnce forest) :=
  inferInstanceAs (Decidable (∀ call ∈ forest,
    if r.opens call = true then
      ∀ before ∈ forest, r.adjacencyList.onlySuccessor before.callbackName ≠ some call.callbackName
    else ∃ before ∈ forest, r.adjacencyList.onlySuccessor before.callbackName = some call.callbackName ∧
      r.carries forest before.callbackName = r.carries forest call.callbackName ∧
      ∀ before' ∈ forest,
        r.adjacencyList.onlySuccessor before'.callbackName = some call.callbackName → before' = before))

variable {r : CallbackRegistry} {forest : Forest} {o : Owner} {name : String}

/-- The callback is appended at its own visit. -/
abbrev comesAs (r : CallbackRegistry) (o : Owner) (name : String) (call : FirstCall) : Bool :=
  decide (r.opens call = true ∧ r.owner call.callbackName = o ∧ call.callbackName = name)

/-- The callback is appended at the visit of a predecessor. -/
abbrev pushedBy (r : CallbackRegistry) (forest : Forest) (o : Owner) (name : String) (call : FirstCall) : Bool :=
  decide (r.carries forest call.callbackName = o ∧ r.adjacencyList.onlySuccessor call.callbackName = some name)

theorem count_pushes (call : FirstCall) :
    (r.pushes forest call o).count name =
      (if r.comesAs o name call then 1 else 0) + if r.pushedBy forest o name call then 1 else 0 := by
  rw [pushes, List.count_append]
  congr 1
  · by_cases comes : r.opens call = true ∧ r.owner call.callbackName = o
    · rw [if_pos comes, List.count_singleton]
      simp [comes]
    · rw [if_neg comes, if_neg]
      · rfl
      · rw [decide_eq_true_eq, ← and_assoc]
        exact fun h => comes h.1
  · by_cases carried : r.carries forest call.callbackName = o
    · rw [if_pos carried]
      cases only : r.adjacencyList.onlySuccessor call.callbackName with
      | none => simp [only]
      | some next => simp [only, carried, List.count_singleton]
    · simp [carried]

/-- **How often a callback is in a member list**: once for its own visit there, and
once for every predecessor there whose only successor it is. -/
theorem count_members : (r.members forest o).count name =
    forest.countP (r.comesAs o name) + forest.countP (r.pushedBy forest o name) := by
  have all : ∀ calls : List FirstCall, (calls.flatMap fun call => r.pushes forest call o).count name =
      calls.countP (r.comesAs o name) + calls.countP (r.pushedBy forest o name) := by
    intro calls
    induction calls with
    | nil => rfl
    | cons call calls ih =>
        rw [List.flatMap_cons, List.count_append, ih, count_pushes, List.countP_cons, List.countP_cons]
        omega
  rw [members, all, List.countP_reverse, List.countP_reverse]

/-- A callback is appended at its own visit in the threadgroup it comes to. -/
theorem countP_comesAs (nodup : forest.names.Nodup) {call : FirstCall} (member : call ∈ forest) :
    forest.countP (r.comesAs o call.callbackName) =
      if r.opens call = true ∧ r.owner call.callbackName = o then 1 else 0 := by
  have same : ∀ other ∈ forest, other.callbackName = call.callbackName → other = call :=
    fun other member' => List.inj_on_of_nodup_map nodup member' member
  split
  · rename_i comes
    refine (countP_eq_one_iff (List.Nodup.of_map _ nodup) _).2 ⟨call, member, ?_, fun other member' holds => ?_⟩
    · simp [comes]
    · exact same other member' (of_decide_eq_true holds).2.2
  · rename_i comes
    refine List.countP_eq_zero.2 fun other member' holds => ?_
    obtain ⟨opens, own, sameName⟩ := of_decide_eq_true holds
    obtain rfl := same other member' sameName
    exact comes ⟨opens, own⟩

/-- No callback that is not visited is appended anywhere. -/
theorem countP_comesAs_unvisited (new : name ∉ forest.names) : forest.countP (r.comesAs o name) = 0 :=
  List.countP_eq_zero.2 fun _ member holds =>
    new ((of_decide_eq_true holds).2.2 ▸ List.mem_map_of_mem member)

/-- A callback that comes to a threadgroup is in its list already, so its predecessors
must not push it. -/
theorem countP_pushedBy_opens (grown : r.Grown forest) {call : FirstCall} (member : call ∈ forest)
    (opens : r.opens call = true) :
    (∀ o, r.Opened forest o → forest.countP (r.comesAs o call.callbackName) +
      forest.countP (r.pushedBy forest o call.callbackName) =
        if r.joins forest call.callbackName = o then 1 else 0) ↔
    ∀ before ∈ forest, r.adjacencyList.onlySuccessor before.callbackName ≠ some call.callbackName := by
  have nodup := grown.nodup
  simp only [countP_comesAs nodup member, joins_of_mem nodup member opens, opens, true_and]
  constructor
  · intro agree before inForest only
    have count := agree _ (grown.carried _ (List.mem_map_of_mem inForest))
    have pushed : 0 < forest.countP (r.pushedBy forest (r.carries forest before.callbackName) call.callbackName) :=
      List.countP_pos_iff.2 ⟨before, inForest, decide_eq_true ⟨rfl, only⟩⟩
    omega
  · intro none_ o _
    rw [List.countP_eq_zero.2 fun before inForest holds => none_ before inForest (of_decide_eq_true holds).2]
    rfl

/-- A callback that inherits its threadgroup is in the list by one push only. -/
theorem countP_pushedBy_inherits (grown : r.Grown forest) {call : FirstCall} (member : call ∈ forest)
    (inherits : r.opens call = false) :
    (∀ o, r.Opened forest o → forest.countP (r.comesAs o call.callbackName) +
      forest.countP (r.pushedBy forest o call.callbackName) =
        if r.joins forest call.callbackName = o then 1 else 0) ↔
    ∃ before ∈ forest, r.adjacencyList.onlySuccessor before.callbackName = some call.callbackName ∧
      r.carries forest before.callbackName = r.carries forest call.callbackName ∧
      ∀ before' ∈ forest,
        r.adjacencyList.onlySuccessor before'.callbackName = some call.callbackName → before' = before := by
  have nodup : forest.Nodup := List.Nodup.of_map _ grown.nodup
  have reentrant : (r.owner call.callbackName).isMutex = false := by
    rw [opens, Bool.or_eq_false_iff] at inherits
    exact inherits.1
  simp only [countP_comesAs grown.nodup member, inherits, Bool.false_eq_true, false_and, if_false, Nat.zero_add,
    joins_reentrant reentrant]
  constructor
  · intro agree
    have one := agree _ (grown.carried _ (List.mem_map_of_mem member))
    rw [if_pos rfl, countP_eq_one_iff nodup] at one
    obtain ⟨before, inForest, pushes, only⟩ := one
    obtain ⟨carried, successor⟩ := of_decide_eq_true pushes
    refine ⟨before, inForest, successor, carried, fun before' inForest' successor' => ?_⟩
    refine only before' inForest' (decide_eq_true ⟨?_, successor'⟩)
    -- a push from another threadgroup would put the callback into a second list
    by_contra other
    have count := agree _ (grown.carried _ (List.mem_map_of_mem inForest'))
    rw [if_neg (Ne.symm other), List.countP_eq_zero] at count
    exact count before' inForest' (decide_eq_true ⟨rfl, successor'⟩)
  · rintro ⟨before, inForest, successor, carried, only⟩ o _
    split
    · rename_i same
      refine (countP_eq_one_iff nodup _).2 ⟨before, inForest, decide_eq_true ⟨carried.trans same, successor⟩,
        fun before' inForest' holds => only before' inForest' (of_decide_eq_true holds).2⟩
    · rename_i other
      refine List.countP_eq_zero.2 fun before' inForest' holds => ?_
      obtain ⟨isOwner, successor'⟩ := of_decide_eq_true holds
      obtain rfl := only before' inForest' successor'
      exact other (carried.symm.trans isOwner)

/-- **The pushes of the predecessors keep the lists in step exactly if** the callback
comes to its threadgroup and there are none, or there is one, from its threadgroup. -/
theorem countP_pushedBy_iff (grown : r.Grown forest) {call : FirstCall} (member : call ∈ forest) :
    (∀ o, r.Opened forest o → forest.countP (r.comesAs o call.callbackName) +
      forest.countP (r.pushedBy forest o call.callbackName) =
        if r.joins forest call.callbackName = o then 1 else 0) ↔
    if r.opens call = true then
      ∀ before ∈ forest, r.adjacencyList.onlySuccessor before.callbackName ≠ some call.callbackName
    else ∃ before ∈ forest, r.adjacencyList.onlySuccessor before.callbackName = some call.callbackName ∧
      r.carries forest before.callbackName = r.carries forest call.callbackName ∧
      ∀ before' ∈ forest,
        r.adjacencyList.onlySuccessor before'.callbackName = some call.callbackName → before' = before := by
  split
  · rename_i opens
    exact countP_pushedBy_opens grown member opens
  · rename_i inherits
    exact countP_pushedBy_inherits grown member (Bool.eq_false_iff.2 inherits)

/-! ## The lists of the root loop -/

variable {preRegistered : PreRegisteredNames} {weakGroupsToNodes : WeakCallbackGroupsToNodesMap}
  {userChains : List UserChain} {order : IterationOrder} {stack : Nat} {s : TraversalState}

/-- **Lists and ids agree exactly when every callback is listed once** in the
depth-first forest. -/
theorem listsAgree_iff (constructed : construct preRegistered weakGroupsToNodes userChains = .ok r)
    (traversed : traverseRoots stack (r.arrange order) = .ok s) :
    ListsAgree s ↔ ∀ forest, (r.arrange order).adjacencyList.DepthFirstForest forest →
      (r.arrange order).ListedOnce forest := by
  have fresh := construct_fresh constructed order
  obtain ⟨forest, isForest, refines, records⟩ := traverseRoots_records fresh traversed
  have names := refines.names
  have count : ∀ o, (r.arrange order).Opened forest o → ∀ name, (s.callbacksOf (s.idOf o)).count name =
      forest.countP ((r.arrange order).comesAs o name) +
        forest.countP ((r.arrange order).pushedBy forest o name) := fun o opened name => by
    rw [records.members o opened, count_members]
  -- the id of a visited callback is that of the owner it joins
  have assigned : ∀ o, (r.arrange order).Opened forest o → ∀ name ∈ forest.names, ∀ info,
      s.callbackMap.lookup name = some info →
      (info.threadgroupId = s.idOf o ↔ (r.arrange order).joins forest name = o) := by
    intro o opened name visited info found
    rw [names.joined name visited info found]
    exact ⟨names.injective _ _ (refines.grown.joined visited) opened, fun same => congrArg s.idOf same⟩
  rw [isForest.forall_iff]
  constructor
  · intro agree call member
    refine (countP_pushedBy_iff refines.grown member).1 fun o opened => ?_
    have visited : call.callbackName ∈ forest.names := List.mem_map_of_mem member
    obtain ⟨info, found, -⟩ := (names.visited _).1 visited
    have listed := agree _ (names.present opened) _ info found
    rw [count o opened] at listed
    simp only [assigned o opened _ visited info found] at listed
    exact listed
  · intro listedOnce id present name info found
    obtain ⟨o, opened, rfl⟩ := names.onto id present
    rw [count o opened]
    by_cases visited : name ∈ forest.names
    · obtain ⟨call, member, rfl⟩ := List.mem_map.1 visited
      simp only [assigned o opened _ visited info found]
      exact (countP_pushedBy_iff refines.grown member).2 (listedOnce call member) o opened
    · have unassigned : info.threadgroupId = 0 := by
        by_contra done
        exact visited ((names.visited name).2 ⟨info, found, done⟩)
      have noPush : forest.countP ((r.arrange order).pushedBy forest o name) = 0 :=
        List.countP_eq_zero.2 fun before inForest holds => visited
          (refines.visited_followed fresh traversed (List.mem_map_of_mem inForest)
            (AdjacencyList.followed_onlySuccessor (of_decide_eq_true holds).2))
      rw [countP_comesAs_unvisited visited, noPush, unassigned,
        if_neg (Ne.symm (names.nonzero refines.sound.1 opened))]

/-! ### A chain through a mutex group -/

/-- **A MutuallyExclusive callback is listed in its predecessor's threadgroup, too.** -/
theorem listsAgree_mutexSuccessor :
    ∃ r s, construct lockNames lockGroups (lockingChain ["sense", "lock"]) = .ok r ∧
      traverseRoots 8 (r.arrange .stored) = .ok s ∧ ¬ ListsAgree s := by
  obtain ⟨r, constructed, runs⟩ := Loop.exists_ok_of_any
    (x := construct lockNames lockGroups (lockingChain ["sense", "lock"]))
    (p := fun r => (traverseRoots 8 (r.arrange .stored)).toOption.any fun s =>
      1 ∈ s.threadgroupCallbackMap ∧ s.callbacksOf 1 = ["sense", "lock"] ∧
        (s.callbackMap.lookup "lock").map CallbackInfo.threadgroupId = some 2) (by decide)
  obtain ⟨s, traversed, runs⟩ := Loop.exists_ok_of_any runs
  obtain ⟨present, members, assigned⟩ := of_decide_eq_true runs
  obtain ⟨info, found, isId⟩ := Option.map_eq_some_iff.1 assigned
  refine ⟨r, s, constructed, traversed, fun agree => ?_⟩
  have listed := agree 1 present "lock" info found
  rw [members, isId] at listed
  exact absurd listed (by decide)

/-- Along a Reentrant chain lists and ids agree. -/
theorem listsAgree_straight :
    ∃ r s, construct cameraNames cameraGroups
        [{ chainName := "all", callbacks := ["camera", "detect", "record"], deadline := 10, period := 10 }] =
          .ok r ∧
      traverseRoots 8 (r.arrange .stored) = .ok s ∧ ListsAgree s := by
  obtain ⟨r, constructed, runs⟩ := Loop.exists_ok_of_any
    (x := construct cameraNames cameraGroups
      [{ chainName := "all", callbacks := ["camera", "detect", "record"], deadline := 10, period := 10 }])
    (p := fun r => (traverseRoots 8 (r.arrange .stored)).toOption.any fun _ =>
      ((r.arrange .stored).adjacencyList.searchForest 8).toOption.any fun forest =>
          (r.arrange .stored).ListedOnce forest) (by decide)
  obtain ⟨s, traversed, runs⟩ := Loop.exists_ok_of_any runs
  exact ⟨r, s, constructed, traversed, (listsAgree_iff constructed traversed).2
    fun forest isForest => of_decide_eq_true (isForest.of_search runs)⟩

end CallbackRegistry

end PreemptiveExecutor
