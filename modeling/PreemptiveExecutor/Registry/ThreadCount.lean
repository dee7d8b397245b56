/-
# Registry.ThreadCount — the thread-count recursion

`recursive_threadgroup_traversal` is a depth-first recursion without a visited
set: `visitThreadgroup` sets the thread count of one threadgroup and names its
successors (`recursiveThreadgroupTraversal_eq`, `countThreads_eq`).

A visit changes the thread count of one record and nothing else
(`AgreeButCounts`; `OnlyNumThreads` where the records are there), so which calls
are made is fixed by the threadgroup graph before the loop starts.
-/
import PreemptiveExecutor.Registry.ThreadgroupIds

namespace PreemptiveExecutor

open Theory
open Theory.DepthFirst (dfs dfsAll)

set_option autoImplicit false

namespace CallbackRegistry

/-- One activation of `recursive_threadgroup_traversal`. -/
def visitThreadgroup (r : CallbackRegistry) (threadgroupId : Nat) :
    Except Thrown (CallbackRegistry × List Nat) :=
  match r.updateNumThreads threadgroupId with
  | .error error => .error ⟨error, r⟩
  | .ok r => .ok (r, (UnorderedMap.subscript r.threadgroupAdjacencyList threadgroupId).outgoing)

def stackOverflow (r : CallbackRegistry) : Thrown := ⟨.stackOverflow, r⟩

theorem recursiveThreadgroupTraversal_eq (stack : Nat) :
    ∀ (threadgroupId : Nat) (r : CallbackRegistry),
      recursiveThreadgroupTraversal stack threadgroupId r =
        dfs visitThreadgroup stackOverflow stack threadgroupId r := by
  induction stack with
  | zero => intro threadgroupId r; rfl
  | succ stack ih =>
      intro threadgroupId r
      rw [DepthFirst.dfs_succ, recursiveThreadgroupTraversal, visitThreadgroup]
      cases r.updateNumThreads threadgroupId with
      | error error => rfl
      | ok r' => simp only [ih, dfsAll]

/-! ## What a visit changes -/

/-- The same threadgroup, with another thread count. -/
def SameButNumThreads (a b : ThreadGroupInfo) : Prop :=
  b = { a with numThreads := b.numThreads }

/-- Two registries that differ in thread counts only. -/
structure OnlyNumThreads (r r' : CallbackRegistry) : Prop where
  rest : r' = { r with threadgroupCallbackMap := r'.threadgroupCallbackMap }
  records : UnorderedMap.SameEntries SameButNumThreads r.threadgroupCallbackMap r'.threadgroupCallbackMap

namespace OnlyNumThreads

variable {r r' r'' : CallbackRegistry}

theorem refl (r : CallbackRegistry) : OnlyNumThreads r r :=
  ⟨rfl, UnorderedMap.sameEntries_refl (fun _ => by rw [SameButNumThreads]) _⟩

theorem trans (first : OnlyNumThreads r r') (second : OnlyNumThreads r' r'') : OnlyNumThreads r r'' := by
  refine ⟨by rw [second.rest, first.rest], first.records.trans second.records ?_⟩
  intro a b c h₁ h₂
  rw [SameButNumThreads, h₂, h₁]

theorem setNumThreads {id : Nat} (present : id ∈ r.threadgroupCallbackMap) (numThreads : Uint16) :
    OnlyNumThreads r (r.setNumThreads id numThreads) :=
  ⟨rfl, UnorderedMap.sameEntries_update (fun _ => by rw [SameButNumThreads]) present fun _ _ => rfl⟩

theorem adjacency (same : OnlyNumThreads r r') :
    r'.threadgroupAdjacencyList = r.threadgroupAdjacencyList := by rw [same.rest]

theorem callbackMap (same : OnlyNumThreads r r') : r'.callbackMap = r.callbackMap := by rw [same.rest]

theorem callbackGraph (same : OnlyNumThreads r r') : r'.adjacencyList = r.adjacencyList := by
  rw [same.rest]

theorem mem_iff (same : OnlyNumThreads r r') (id : Nat) :
    id ∈ r'.threadgroupCallbackMap ↔ id ∈ r.threadgroupCallbackMap :=
  (same.records.mem_iff id).symm

/-- Any record, also one that is read by default, is the same but for its count. -/
theorem subscript (same : OnlyNumThreads r r') (id : Nat) :
    SameButNumThreads (UnorderedMap.subscript r.threadgroupCallbackMap id)
      (UnorderedMap.subscript r'.threadgroupCallbackMap id) :=
  same.records.subscript (by rw [SameButNumThreads]) id

theorem isMutexGroup (same : OnlyNumThreads r r') (id : Nat) :
    (UnorderedMap.subscript r'.threadgroupCallbackMap id).isMutexGroup =
      (UnorderedMap.subscript r.threadgroupCallbackMap id).isMutexGroup := by
  rw [same.subscript id]

theorem sound (same : OnlyNumThreads r r') (sound : r.Sound) : r'.Sound := by
  refine sound.of_sameRecords ?_ ?_ ?_ same.adjacency (same.records.imp ?_)
  · rw [same.rest]
  · rw [same.rest]
  · rw [same.rest]
  · rintro a b h
    rw [SameThreadgroup, h]
    exact ⟨rfl, rfl⟩

end OnlyNumThreads

/-- Two registries that agree but for thread counts, records that are read by
default included. -/
structure AgreeButCounts (r r' : CallbackRegistry) : Prop where
  rest : r' = { r with threadgroupCallbackMap := r'.threadgroupCallbackMap }
  records : ∀ id, SameButNumThreads (UnorderedMap.subscript r.threadgroupCallbackMap id)
    (UnorderedMap.subscript r'.threadgroupCallbackMap id)

theorem OnlyNumThreads.agree {r r' : CallbackRegistry} (same : OnlyNumThreads r r') : AgreeButCounts r r' :=
  ⟨same.rest, same.subscript⟩

namespace AgreeButCounts

variable {r r' r'' : CallbackRegistry}

theorem refl (r : CallbackRegistry) : AgreeButCounts r r := (OnlyNumThreads.refl r).agree

theorem trans (first : AgreeButCounts r r') (second : AgreeButCounts r' r'') : AgreeButCounts r r'' := by
  refine ⟨by rw [second.rest, first.rest], fun id => ?_⟩
  rw [SameButNumThreads, second.records id, first.records id]

theorem setNumThreads (r : CallbackRegistry) (id : Nat) (numThreads : Uint16) :
    AgreeButCounts r (r.setNumThreads id numThreads) := by
  refine ⟨rfl, fun id' => ?_⟩
  show SameButNumThreads _ (UnorderedMap.subscript (UnorderedMap.update r.threadgroupCallbackMap id _) id')
  rw [UnorderedMap.subscript_update]
  split
  · rename_i same
    rw [same]
    rfl
  · rfl

theorem adjacency (same : AgreeButCounts r r') :
    r'.threadgroupAdjacencyList = r.threadgroupAdjacencyList := by rw [same.rest]

theorem callbackGraph (same : AgreeButCounts r r') : r'.adjacencyList = r.adjacencyList := by
  rw [same.rest]

theorem callbacks (same : AgreeButCounts r r') (id : Nat) :
    (UnorderedMap.subscript r'.threadgroupCallbackMap id).callbacks =
      (UnorderedMap.subscript r.threadgroupCallbackMap id).callbacks := by
  rw [same.records id]

theorem isMutexGroup (same : AgreeButCounts r r') (id : Nat) :
    (UnorderedMap.subscript r'.threadgroupCallbackMap id).isMutexGroup =
      (UnorderedMap.subscript r.threadgroupCallbackMap id).isMutexGroup := by
  rw [same.records id]

end AgreeButCounts

theorem rootNumThreads_fails {info : CallbackAdjacencyInfo} {error : Error}
    (failed : rootNumThreads info = .error error) : error = .undefinedBehaviour := by
  unfold rootNumThreads at failed
  split at failed
  · split at failed
    · cases failed; rfl
    · split at failed
      · cases failed
      · cases failed; rfl
  · cases failed; rfl

/-- Only the root formula can fail. -/
theorem updateNumThreads_fails {r : CallbackRegistry} {threadgroupId : Nat} {error : Error}
    (failed : r.updateNumThreads threadgroupId = .error error) :
    (UnorderedMap.subscript r.threadgroupAdjacencyList threadgroupId).indegree = 0 ∧
      error = .undefinedBehaviour ∧
      ∀ first, (UnorderedMap.subscript r.threadgroupCallbackMap threadgroupId).callbacks.head? = some first →
        rootNumThreads (UnorderedMap.subscript r.adjacencyList first) = .error error := by
  have sameList : (UnorderedMap.subscript (r.setNumThreads threadgroupId 0).threadgroupCallbackMap
      threadgroupId).callbacks = (UnorderedMap.subscript r.threadgroupCallbackMap threadgroupId).callbacks := by
    simp [setNumThreads, UnorderedMap.subscript_update]
  unfold updateNumThreads at failed
  dsimp only at failed
  rw [sameList] at failed
  split at failed
  · rename_i zero
    cases callbacks : (UnorderedMap.subscript r.threadgroupCallbackMap threadgroupId).callbacks with
    | nil =>
        rw [callbacks] at failed
        cases failed
        exact ⟨zero, rfl, by rintro _ ⟨⟩⟩
    | cons first rest =>
        rw [callbacks] at failed
        change Except.map _ (rootNumThreads (UnorderedMap.subscript r.adjacencyList first)) = _ at failed
        cases root : rootNumThreads (UnorderedMap.subscript r.adjacencyList first) with
        | error error' =>
            rw [root] at failed
            cases failed
            refine ⟨zero, rootNumThreads_fails root, fun first' isFirst => ?_⟩
            cases isFirst
            exact root
        | ok numThreads => rw [root] at failed; cases failed
  · cases failed

/-- Each summand is added to the count of one record. -/
theorem foldl_addNumThreads_agrees (threadgroupId : Nat) (incoming : List Nat) :
    ∀ r : CallbackRegistry, AgreeButCounts r (incoming.foldl
      (fun r prev => r.setNumThreads threadgroupId (r.numThreadsOf threadgroupId + r.numThreadsOf prev)) r) := by
  induction incoming with
  | nil => exact AgreeButCounts.refl
  | cons prev incoming ih => exact fun r => (AgreeButCounts.setNumThreads r threadgroupId _).trans (ih _)

theorem updateNumThreads_agrees {r r' : CallbackRegistry} {threadgroupId : Nat}
    (updated : r.updateNumThreads threadgroupId = .ok r') : AgreeButCounts r r' := by
  have reset := AgreeButCounts.setNumThreads r threadgroupId 0
  unfold updateNumThreads at updated
  simp only at updated
  split at updated
  · split at updated
    · cases updated
    · rename_i first _ _
      cases root : rootNumThreads (UnorderedMap.subscript (r.setNumThreads threadgroupId 0).adjacencyList
          first) with
      | error error => rw [root] at updated; cases updated
      | ok numThreads =>
          rw [root] at updated
          cases updated
          exact reset.trans (AgreeButCounts.setNumThreads _ threadgroupId numThreads)
  · cases updated
    exact reset.trans (foldl_addNumThreads_agrees threadgroupId _ _)

/-- The calls of a visit are the successors in the threadgroup graph. -/
theorem visitThreadgroup_ok {r r' : CallbackRegistry} {threadgroupId : Nat} {calls : List Nat}
    (visited : visitThreadgroup r threadgroupId = .ok (r', calls)) :
    AgreeButCounts r r' ∧
      calls = (UnorderedMap.subscript r.threadgroupAdjacencyList threadgroupId).outgoing := by
  unfold visitThreadgroup at visited
  cases updated : r.updateNumThreads threadgroupId with
  | error error => rw [updated] at visited; cases visited
  | ok r₁ =>
      rw [updated] at visited
      cases visited
      have same := updateNumThreads_agrees updated
      exact ⟨same, by rw [same.adjacency]⟩

theorem updateNumThreads_ok {r r' : CallbackRegistry} {threadgroupId : Nat}
    (present : threadgroupId ∈ r.threadgroupCallbackMap)
    (updated : r.updateNumThreads threadgroupId = .ok r') : OnlyNumThreads r r' := by
  have reset := OnlyNumThreads.setNumThreads present 0
  have still := (reset.mem_iff threadgroupId).2 present
  unfold updateNumThreads at updated
  simp only at updated
  split at updated
  · split at updated
    · cases updated
    · rename_i first _ _
      cases root : rootNumThreads (UnorderedMap.subscript (r.setNumThreads threadgroupId 0).adjacencyList
          first) with
      | error error => rw [root] at updated; cases updated
      | ok numThreads =>
          rw [root] at updated
          cases updated
          exact reset.trans (OnlyNumThreads.setNumThreads still numThreads)
  · cases updated
    -- each summand is added to the count of the same record
    generalize (UnorderedMap.subscript (r.setNumThreads threadgroupId 0).threadgroupAdjacencyList
      threadgroupId).incoming = incoming
    generalize r.setNumThreads threadgroupId 0 = r₁ at reset still
    induction incoming generalizing r₁ with
    | nil => exact reset
    | cons prev incoming ih =>
        have step := OnlyNumThreads.setNumThreads still
          (r₁.numThreadsOf threadgroupId + r₁.numThreadsOf prev)
        exact ih _ (reset.trans step) ((step.mem_iff threadgroupId).2 still)

/-- The invariant of the thread-count recursion: thread counts only, and pending
calls that name threadgroups. -/
def CountCalls (r₀ r : CallbackRegistry) (calls : List Nat) : Prop :=
  OnlyNumThreads r₀ r ∧ ∀ id ∈ calls, id ∈ r₀.threadgroupCallbackMap

theorem visitThreadgroup_counts {r₀ : CallbackRegistry} (sound : r₀.Sound) (r : CallbackRegistry)
    (threadgroupId : Nat) (rest : List Nat) (r' : CallbackRegistry) (calls : List Nat)
    (inv : CountCalls r₀ r (threadgroupId :: rest))
    (visited : visitThreadgroup r threadgroupId = .ok (r', calls)) :
    CountCalls r₀ r' (calls ++ rest) := by
  obtain ⟨same, ids⟩ := inv
  have present := ids threadgroupId List.mem_cons_self
  unfold visitThreadgroup at visited
  cases updated : r.updateNumThreads threadgroupId with
  | error error => rw [updated] at visited; cases visited
  | ok r₁ =>
      rw [updated] at visited
      cases visited
      have changed := same.trans (updateNumThreads_ok ((same.mem_iff _).2 present) updated)
      refine ⟨changed, fun id member => ?_⟩
      rcases List.mem_append.1 member with next | pending
      · rw [changed.adjacency] at next
        cases found : r₀.threadgroupAdjacencyList.lookup threadgroupId with
        | none => rw [UnorderedMap.subscript, found] at next; cases next
        | some info =>
            rw [UnorderedMap.subscript_of_lookup found] at next
            exact sound.edges threadgroupId info found id
              (List.mem_cons_of_mem _ (List.mem_append_left _ next))
      · exact ids id (List.mem_cons_of_mem _ pending)

/-! ## The loop over the threadgroups -/

/-- The threadgroups the thread-count loop starts from. -/
def threadgroupRoots (r : CallbackRegistry) : List Nat :=
  (r.threadgroupAdjacencyList.entries.filter fun entry =>
    entry.2.indegree = 0 ∧
      (UnorderedMap.subscript r.threadgroupCallbackMap entry.1).isMutexGroup = false).map Sigma.fst

theorem mem_threadgroupRoots {r : CallbackRegistry} {id : Nat} :
    id ∈ r.threadgroupRoots ↔
      ∃ info, r.threadgroupAdjacencyList.lookup id = some info ∧ info.indegree = 0 ∧
        (UnorderedMap.subscript r.threadgroupCallbackMap id).isMutexGroup = false := by
  unfold threadgroupRoots
  rw [List.mem_map]
  constructor
  · rintro ⟨⟨key, info⟩, member, rfl⟩
    obtain ⟨inMap, root⟩ := List.mem_filter.1 member
    exact ⟨info, UnorderedMap.mem_entries_iff.1 inMap, by simpa using root⟩
  · rintro ⟨info, found, zero, reentrant⟩
    exact ⟨⟨id, info⟩,
      List.mem_filter.2 ⟨UnorderedMap.mem_entries_iff.2 found, by simp [zero, reentrant]⟩, rfl⟩

theorem threadgroupRoots_present {r : CallbackRegistry} (sound : r.Sound) :
    ∀ id ∈ r.threadgroupRoots, id ∈ r.threadgroupCallbackMap := by
  intro id member
  obtain ⟨info, found, -⟩ := mem_threadgroupRoots.1 member
  exact sound.edges id info found id List.mem_cons_self

theorem countThreads_eq (stack : Nat) (r : CallbackRegistry) :
    r.countThreads stack = dfsAll visitThreadgroup stackOverflow stack r.threadgroupRoots r := by
  -- the flag the loop tests is the one from before the loop
  have loop : ∀ (entries : List (Sigma fun _ : Nat => ThreadGroupAdjacencyInfo)) (r' : CallbackRegistry),
      AgreeButCounts r r' →
      entries.foldlM (fun r entry =>
          if entry.2.indegree = 0 ∧
              (UnorderedMap.subscript r.threadgroupCallbackMap entry.1).isMutexGroup = false then
            recursiveThreadgroupTraversal stack entry.1 r
          else .ok r) r' =
        dfsAll visitThreadgroup stackOverflow stack
          ((entries.filter fun entry => entry.2.indegree = 0 ∧
            (UnorderedMap.subscript r.threadgroupCallbackMap entry.1).isMutexGroup = false).map Sigma.fst)
          r' := by
    intro entries
    induction entries with
    | nil => intro r' _; rfl
    | cons entry entries ih =>
        intro r' same
        rw [List.foldlM_cons, List.filter_cons, same.isMutexGroup]
        by_cases root : entry.2.indegree = 0 ∧
            (UnorderedMap.subscript r.threadgroupCallbackMap entry.1).isMutexGroup = false
        · rw [if_pos root, if_pos (by simpa using root), List.map_cons, DepthFirst.dfsAll_cons,
            recursiveThreadgroupTraversal_eq]
          cases ran : dfs visitThreadgroup stackOverflow stack entry.1 r' with
          | error e => rfl
          | ok r'' =>
              have one : dfsAll visitThreadgroup stackOverflow stack [entry.1] r' = .ok r'' := by
                rw [DepthFirst.dfsAll_cons, ran]
                rfl
              exact ih r'' (DepthFirst.dfsAll_ok (fun r' _ => AgreeButCounts r r')
                (fun r₁ id rest r₂ calls agree visited => agree.trans (visitThreadgroup_ok visited).1) stack
                [entry.1] [] r' r'' same one)
        · rw [if_neg root, if_neg (by simpa using root)]
          exact ih r' same
  exact loop _ r (AgreeButCounts.refl r)

theorem countThreads_agrees {r r' : CallbackRegistry} {stack : Nat} (ran : r.countThreads stack = .ok r') :
    AgreeButCounts r r' := by
  rw [countThreads_eq] at ran
  exact DepthFirst.dfsAll_ok (fun r' _ => AgreeButCounts r r')
    (fun r₁ id rest r₂ calls agree visited => agree.trans (visitThreadgroup_ok visited).1) stack _ [] r r'
    (AgreeButCounts.refl r) ran

/-- **The thread-count loop changes thread counts only**, whether it returns or
ends with an error. -/
theorem countThreads_onlyNumThreads {r : CallbackRegistry} (sound : r.Sound) (stack : Nat) :
    (∀ r', r.countThreads stack = .ok r' → OnlyNumThreads r r') ∧
      ∀ thrown, r.countThreads stack = .error thrown → OnlyNumThreads r thrown.registry := by
  have start : CountCalls r r (r.threadgroupRoots ++ []) :=
    ⟨OnlyNumThreads.refl r, by simpa using threadgroupRoots_present sound⟩
  rw [countThreads_eq]
  refine ⟨fun r' ran => ?_, fun thrown ran => ?_⟩
  · exact (DepthFirst.dfsAll_ok (CountCalls r) (visitThreadgroup_counts sound) stack _ [] r r' start ran).1
  · obtain ⟨r₁, id, rest, inv, visited | rfl⟩ :=
      DepthFirst.dfsAll_error (CountCalls r) (visitThreadgroup_counts sound) stack _ [] r thrown start ran
    · unfold visitThreadgroup at visited
      split at visited
      · cases visited; exact inv.1
      · cases visited
    · exact inv.1

end CallbackRegistry

end PreemptiveExecutor
