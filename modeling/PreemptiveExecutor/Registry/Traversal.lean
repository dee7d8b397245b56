/-
# Registry.Traversal — the callback traversal is a depth-first recursion

`visit` is one activation of `recursive_callback_traversal`: it reads and
changes the state and answers with the nested calls it makes.  The recursive
function is `DepthFirst.dfs visit` (`recursiveCallbackTraversal_eq`) and the root
loop is `DepthFirst.dfsAll visit` on the callbacks of stored indegree 0
(`traverseRoots_eq`), so every invariant below is one about a single visit.

Which calls a visit makes does not depend on the threadgroup ids: `followed` are
the successors it goes to, and it either `continues` into the only one of them
with its own threadgroup, or restarts in each with none.
-/
import PreemptiveExecutor.Theory.DepthFirst
import PreemptiveExecutor.Registry.Allocation

namespace PreemptiveExecutor

open Theory
open Theory.DepthFirst (dfs dfsAll)

set_option autoImplicit false

/-! ## Followed edges -/

namespace AdjacencyList

/-- The first successor has stored indegree 1: the traversal goes on to it, with
the threadgroup it is in, and to no other. -/
def continues (adjacencyList : AdjacencyList) (callbackName : String) : Bool :=
  match adjacencyList.outgoing callbackName with
  | [] => false
  | next :: _ => adjacencyList.indegree next = 1

/-- The successors the traversal calls itself on. -/
def followed (adjacencyList : AdjacencyList) (callbackName : String) : List String :=
  match adjacencyList.outgoing callbackName with
  | [] => []
  | next :: others => if adjacencyList.indegree next = 1 then [next] else next :: others

/-- The callbacks the root loop starts from. -/
def roots (adjacencyList : AdjacencyList) : List String :=
  (adjacencyList.entries.filter fun entry => entry.2.indegree = 0).map Sigma.fst

theorem followed_nil {adjacencyList : AdjacencyList} {callbackName : String}
    (edges : adjacencyList.outgoing callbackName = []) : adjacencyList.followed callbackName = [] := by
  rw [followed, edges]

theorem followed_cons {adjacencyList : AdjacencyList} {callbackName next : String} {others : List String}
    (edges : adjacencyList.outgoing callbackName = next :: others) :
    adjacencyList.followed callbackName =
      if adjacencyList.indegree next = 1 then [next] else next :: others := by
  rw [followed, edges]

theorem continues_cons {adjacencyList : AdjacencyList} {callbackName next : String} {others : List String}
    (edges : adjacencyList.outgoing callbackName = next :: others) :
    adjacencyList.continues callbackName = decide (adjacencyList.indegree next = 1) := by
  rw [continues, edges]

theorem followed_subset_outgoing (adjacencyList : AdjacencyList) (callbackName : String) :
    adjacencyList.followed callbackName ⊆ adjacencyList.outgoing callbackName := by
  cases edges : adjacencyList.outgoing callbackName with
  | nil => simp [followed_nil edges]
  | cons next others =>
      rw [followed_cons edges]
      split
      · simp
      · exact List.Subset.refl _

/-- A continuing callback has one followed successor, and its indegree is 1. -/
theorem followed_of_continues {adjacencyList : AdjacencyList} {callbackName : String}
    (continuing : adjacencyList.continues callbackName = true) :
    ∃ next, adjacencyList.followed callbackName = [next] ∧
      (adjacencyList.outgoing callbackName).head? = some next ∧ adjacencyList.indegree next = 1 := by
  cases edges : adjacencyList.outgoing callbackName with
  | nil => rw [continues, edges] at continuing; cases continuing
  | cons next others =>
      rw [continues_cons edges, decide_eq_true_eq] at continuing
      exact ⟨next, by rw [followed_cons edges, if_pos continuing], rfl, continuing⟩

theorem followed_of_not_continues {adjacencyList : AdjacencyList} {callbackName : String}
    (restarting : adjacencyList.continues callbackName = false) :
    adjacencyList.followed callbackName = adjacencyList.outgoing callbackName := by
  cases edges : adjacencyList.outgoing callbackName with
  | nil => exact followed_nil edges
  | cons next others =>
      rw [continues_cons edges, decide_eq_false_iff_not] at restarting
      rw [followed_cons edges, if_neg restarting]

theorem mem_roots {adjacencyList : AdjacencyList} {callbackName : String} :
    callbackName ∈ adjacencyList.roots ↔
      ∃ info, adjacencyList.lookup callbackName = some info ∧ info.indegree = 0 := by
  unfold roots
  rw [List.mem_map]
  constructor
  · rintro ⟨⟨name, info⟩, member, rfl⟩
    obtain ⟨inMap, zero⟩ := List.mem_filter.1 member
    exact ⟨info, UnorderedMap.mem_entries_iff.1 inMap, by simpa using zero⟩
  · rintro ⟨info, found, zero⟩
    exact ⟨⟨callbackName, info⟩,
      List.mem_filter.2 ⟨UnorderedMap.mem_entries_iff.2 found, by simpa using zero⟩, rfl⟩

theorem mem_roots_iff {adjacencyList : AdjacencyList} {callbackName : String} :
    callbackName ∈ adjacencyList.roots ↔ callbackName ∈ adjacencyList ∧ adjacencyList.indegree callbackName = 0 := by
  rw [mem_roots, UnorderedMap.mem_iff_lookup]
  constructor
  · rintro ⟨info, found, zero⟩
    exact ⟨⟨info, found⟩, by rw [indegree, UnorderedMap.subscript_of_lookup found, zero]⟩
  · rintro ⟨⟨info, found⟩, zero⟩
    rw [indegree, UnorderedMap.subscript_of_lookup found] at zero
    exact ⟨info, found, zero⟩

end AdjacencyList

/-! ## One activation of the traversal -/

namespace TraversalState

/-- The arguments of a call of `recursive_callback_traversal`. -/
structure Call where
  callbackName : String
  threadgroupId : Nat
  prevThreadgroupId : Nat

/-- The `callbacks.push_back(next_callback)` of a callback with one successor. -/
def pushOnlySuccessor (s : TraversalState) (callbackName : String) (threadgroupId : Nat) :
    TraversalState :=
  match s.adjacencyList.outgoing callbackName with
  | [next] => s.pushCallback threadgroupId next
  | _ => s

/-- The nested calls of a callback traversed with the local `threadgroupId`. -/
def nestedCalls (adjacencyList : AdjacencyList) (callbackName : String)
    (threadgroupId prevThreadgroupId : Nat) : List Call :=
  (adjacencyList.followed callbackName).map fun next =>
    if adjacencyList.continues callbackName then ⟨next, threadgroupId, prevThreadgroupId⟩
    else ⟨next, 0, threadgroupId⟩

def visit (s : TraversalState) (call : Call) : Except Thrown (TraversalState × List Call) :=
  match s.callbackMap.lookup call.callbackName with
  | none => .error ⟨.runtimeError "Callback not found in callback map", s.toCallbackRegistry⟩
  | some info =>
      if info.threadgroupId ≠ 0 then .ok (s, [])
      else
        let assigned :=
          s.assignThreadgroup call.callbackName info call.threadgroupId call.prevThreadgroupId
        .ok (assigned.2.pushOnlySuccessor call.callbackName assigned.1,
          nestedCalls assigned.2.adjacencyList call.callbackName assigned.1 call.prevThreadgroupId)

def stackOverflow (s : TraversalState) : Thrown := ⟨.stackOverflow, s.toCallbackRegistry⟩

@[simp] theorem pushCallback_adjacencyList (s : TraversalState) (threadgroupId : Nat) (name : String) :
    (s.pushCallback threadgroupId name).adjacencyList = s.adjacencyList := rfl

theorem pushOnlySuccessor_cons {s : TraversalState} {callbackName next : String} {others : List String}
    (edges : s.adjacencyList.outgoing callbackName = next :: others) (threadgroupId : Nat) :
    s.pushOnlySuccessor callbackName threadgroupId =
      if others = [] then s.pushCallback threadgroupId next else s := by
  unfold pushOnlySuccessor
  rw [edges]
  cases others <;> rfl

@[simp] theorem pushOnlySuccessor_adjacencyList (s : TraversalState) (callbackName : String)
    (threadgroupId : Nat) :
    (s.pushOnlySuccessor callbackName threadgroupId).adjacencyList = s.adjacencyList := by
  unfold pushOnlySuccessor
  split <;> rfl

/-- The recursive function, spelled as visits and nested calls. -/
theorem recursiveCallbackTraversal_eq (stack : Nat) :
    ∀ (call : Call) (s : TraversalState),
      recursiveCallbackTraversal stack call.callbackName call.threadgroupId call.prevThreadgroupId s =
        dfs visit stackOverflow stack call s := by
  induction stack with
  | zero => intro call s; rfl
  | succ stack ih =>
      intro call s
      have ih' : ∀ (name : String) (id prev : Nat) (s : TraversalState),
          recursiveCallbackTraversal stack name id prev s =
            dfs visit stackOverflow stack ⟨name, id, prev⟩ s := fun name id prev s =>
        ih ⟨name, id, prev⟩ s
      rw [DepthFirst.dfs_succ, recursiveCallbackTraversal, visit]
      cases s.callbackMap.lookup call.callbackName with
      | none => rfl
      | some info =>
          by_cases visited : info.threadgroupId ≠ 0
          · simp only [visited, ne_eq, not_false_eq_true, ↓reduceIte, DepthFirst.dfsAll_nil]
          · simp only [visited, ↓reduceIte]
            generalize s.assignThreadgroup call.callbackName info call.threadgroupId
              call.prevThreadgroupId = assigned
            obtain ⟨threadgroupId, s₁⟩ := assigned
            rw [nestedCalls]
            cases edges : s₁.adjacencyList.outgoing call.callbackName with
            | nil =>
                rw [AdjacencyList.followed_nil edges, pushOnlySuccessor, edges]
                rfl
            | cons next others =>
                rw [pushOnlySuccessor_cons edges, AdjacencyList.followed_cons edges,
                  AdjacencyList.continues_cons edges]
                have same : (if others = [] then s₁.pushCallback threadgroupId next else s₁).adjacencyList =
                    s₁.adjacencyList := by split <;> rfl
                simp only [same, ih']
                by_cases one : s₁.adjacencyList.indegree next = 1
                · simp only [one, ↓reduceIte, decide_true, List.map_cons, List.map_nil,
                    DepthFirst.dfsAll_cons, DepthFirst.dfsAll_nil]
                  cases dfs visit stackOverflow stack _ _ <;> rfl
                · simp only [one, ↓reduceIte, decide_false, Bool.false_eq_true, DepthFirst.dfsAll,
                    List.foldlM_map]

/-! ### Group assignment -/

/-- Entering the threadgroup a mutex group already has. -/
theorem enterThreadgroup_existing {s : TraversalState} {info : CallbackInfo} {id : Nat}
    (mutex : info.isMutex = true)
    (known : s.mutexThreadgroupMap.lookup info.callbackGroup.ptr = some id) (callbackName : String) :
    s.enterThreadgroup callbackName info =
      (id, { s with
        threadgroupCallbackMap := UnorderedMap.update s.threadgroupCallbackMap id fun group =>
          { group with callbacks := group.callbacks ++ [callbackName], threadgroupId := id }
        callbackMap := s.callbackMap.insert callbackName { info with threadgroupId := id }
        deadlineToThreadgroupIdMap :=
          OrderedMultimap.pushBack (s.adjacencyList.minDeadline callbackName) id
            s.deadlineToThreadgroupIdMap }) := by
  unfold enterThreadgroup newThreadgroupId
  rw [mutex, known]
  rfl

/-- The record of a threadgroup that has just been opened for a callback. -/
def openedRecord (id : Nat) (callbackName : String) (info : CallbackInfo) : ThreadGroupInfo :=
  { threadgroupId := id, callbacks := [callbackName], isMutexGroup := info.isMutex }

/-- Opening a threadgroup: a mutex group without one, or a Reentrant callback. -/
theorem enterThreadgroup_new {s : TraversalState} {info : CallbackInfo}
    (without : info.isMutex = true → s.mutexThreadgroupMap.lookup info.callbackGroup.ptr = none)
    (fresh : s.nextThreadgroupId ∉ s.threadgroupCallbackMap) (callbackName : String) :
    s.enterThreadgroup callbackName info =
      (s.nextThreadgroupId, { s with
        nextThreadgroupId := s.nextThreadgroupId + 1
        mutexThreadgroupMap :=
          if info.isMutex then s.mutexThreadgroupMap.insert info.callbackGroup.ptr s.nextThreadgroupId
          else s.mutexThreadgroupMap
        threadgroupCallbackMap := s.threadgroupCallbackMap.insert s.nextThreadgroupId
          (openedRecord s.nextThreadgroupId callbackName info)
        callbackMap :=
          s.callbackMap.insert callbackName { info with threadgroupId := s.nextThreadgroupId }
        deadlineToThreadgroupIdMap :=
          OrderedMultimap.pushBack (s.adjacencyList.minDeadline callbackName) s.nextThreadgroupId
            s.deadlineToThreadgroupIdMap }) := by
  have absent : UnorderedMap.subscript s.threadgroupCallbackMap s.nextThreadgroupId = {} := by
    rw [UnorderedMap.subscript, AList.lookup_eq_none.2 fresh]
    rfl
  unfold enterThreadgroup newThreadgroupId openedRecord
  cases mutex : info.isMutex with
  | false =>
      simp only [generateThreadgroupId, updateThreadgroup, setThreadgroupId, UnorderedMap.update, absent,
        Bool.false_eq_true, ↓reduceIte]
      rfl
  | true =>
      rw [without mutex]
      simp only [generateThreadgroupId, updateThreadgroup, setThreadgroupId, UnorderedMap.update,
        UnorderedMap.subscript_insert, absent, ↓reduceIte, AList.insert_insert]
      rfl

/-! ### What group assignment leaves alone -/

theorem newThreadgroupId_frame (s : TraversalState) (info : CallbackInfo) :
    (s.newThreadgroupId info).2.callbackMap = s.callbackMap ∧
      (s.newThreadgroupId info).2.adjacencyList = s.adjacencyList := by
  unfold newThreadgroupId
  split
  · exact ⟨rfl, rfl⟩
  · simp only [generateThreadgroupId]
    split <;> exact ⟨rfl, rfl⟩

theorem enterThreadgroup_frame (s : TraversalState) (callbackName : String) (info : CallbackInfo) :
    (s.enterThreadgroup callbackName info).2.callbackMap =
        s.callbackMap.insert callbackName
          { info with threadgroupId := (s.enterThreadgroup callbackName info).1 } ∧
      (s.enterThreadgroup callbackName info).2.adjacencyList = s.adjacencyList := by
  obtain ⟨callbacks, adjacency⟩ := newThreadgroupId_frame s info
  constructor
  · change (s.newThreadgroupId info).2.callbackMap.insert _ _ = _
    rw [callbacks]
    rfl
  · exact adjacency

/-- The callback assigned gets an id; every other callback and the callback
graph stay as they are. -/
theorem assignThreadgroup_frame (s : TraversalState) (callbackName : String) (info : CallbackInfo)
    (threadgroupId prevThreadgroupId : Nat) :
    (∃ id, (s.assignThreadgroup callbackName info threadgroupId prevThreadgroupId).2.callbackMap =
        s.callbackMap.insert callbackName { info with threadgroupId := id }) ∧
      (s.assignThreadgroup callbackName info threadgroupId prevThreadgroupId).2.adjacencyList =
        s.adjacencyList := by
  obtain ⟨callbacks, adjacency⟩ := enterThreadgroup_frame s callbackName info
  unfold assignThreadgroup
  split
  · simp only
    split
    · unfold linkThreadgroups
      split <;> exact ⟨⟨_, callbacks⟩, adjacency⟩
    · exact ⟨⟨_, callbacks⟩, adjacency⟩
  · exact ⟨⟨threadgroupId, rfl⟩, rfl⟩

/-- An inherited threadgroup id is kept by a Reentrant callback. -/
theorem assignThreadgroup_inherited {s : TraversalState} {info : CallbackInfo} {threadgroupId : Nat}
    (inherited : threadgroupId ≠ 0) (reentrant : info.isMutex = false) (callbackName : String)
    (prevThreadgroupId : Nat) :
    s.assignThreadgroup callbackName info threadgroupId prevThreadgroupId =
      (threadgroupId, s.setThreadgroupId callbackName info threadgroupId) := by
  unfold assignThreadgroup
  rw [if_neg (by simp [inherited, reentrant])]

/-- A MutuallyExclusive callback enters its own threadgroup, while the traversal
goes on with the inherited one. -/
theorem assignThreadgroup_mutex {s : TraversalState} {info : CallbackInfo} {threadgroupId : Nat}
    (inherited : threadgroupId ≠ 0) (mutex : info.isMutex = true) (callbackName : String)
    (prevThreadgroupId : Nat) :
    s.assignThreadgroup callbackName info threadgroupId prevThreadgroupId =
      (threadgroupId, (s.enterThreadgroup callbackName info).2) := by
  unfold assignThreadgroup
  rw [if_pos (Or.inr mutex)]
  simp [inherited]

/-- Without an inherited id the traversal goes on in the threadgroup entered,
which is linked to the one it comes from. -/
theorem assignThreadgroup_restart (s : TraversalState) (callbackName : String) (info : CallbackInfo)
    (prevThreadgroupId : Nat) :
    s.assignThreadgroup callbackName info 0 prevThreadgroupId =
      ((s.enterThreadgroup callbackName info).1,
        (s.enterThreadgroup callbackName info).2.linkThreadgroups prevThreadgroupId
          (s.enterThreadgroup callbackName info).1) := by
  unfold assignThreadgroup
  rw [if_pos (Or.inl rfl)]
  rfl

/-- What a successful activation does: nothing on a visited callback; otherwise
the group assignment, the push of an only successor, and the nested calls. -/
theorem visit_ok {s s' : TraversalState} {call : Call} {calls : List Call}
    (visited : visit s call = .ok (s', calls)) :
    (∃ info, s.callbackMap.lookup call.callbackName = some info ∧ info.threadgroupId ≠ 0 ∧
      s' = s ∧ calls = []) ∨
    (∃ info id s₁, s.callbackMap.lookup call.callbackName = some info ∧ info.threadgroupId = 0 ∧
      s.assignThreadgroup call.callbackName info call.threadgroupId call.prevThreadgroupId = (id, s₁) ∧
      s' = s₁.pushOnlySuccessor call.callbackName id ∧
      calls = nestedCalls s₁.adjacencyList call.callbackName id call.prevThreadgroupId) := by
  unfold visit at visited
  cases found : s.callbackMap.lookup call.callbackName with
  | none => rw [found] at visited; cases visited
  | some info =>
      simp only [found] at visited
      split at visited
      · rename_i done
        cases visited
        exact Or.inl ⟨info, rfl, done, rfl, rfl⟩
      · rename_i fresh
        cases visited
        exact Or.inr ⟨info, _, _, rfl, not_not.1 fresh, rfl, rfl, rfl⟩

/-- The same callback, possibly in another threadgroup. -/
def SameCallback (a b : CallbackInfo) : Prop := b = { a with threadgroupId := b.threadgroupId }

theorem SameCallback.refl (a : CallbackInfo) : SameCallback a a := rfl

theorem sameCallback_insert {callbackMap : UnorderedMap String CallbackInfo} {callbackName : String}
    {info : CallbackInfo} (found : callbackMap.lookup callbackName = some info) (id : Nat) :
    UnorderedMap.SameEntries SameCallback callbackMap
      (callbackMap.insert callbackName { info with threadgroupId := id }) := by
  intro name
  rw [UnorderedMap.lookup_insert_eq]
  split
  · rename_i h; subst h; rw [found]; exact .some rfl
  · cases callbackMap.lookup name with
    | none => exact .none
    | some info => exact .some rfl

/-- A visit keeps the callback graph and, but for their ids, the callbacks. -/
theorem visit_frame {s s' : TraversalState} {call : Call} {calls : List Call}
    (visited : visit s call = .ok (s', calls)) :
    UnorderedMap.SameEntries SameCallback s.callbackMap s'.callbackMap ∧
      s'.adjacencyList = s.adjacencyList := by
  rcases visit_ok visited with ⟨info, -, -, rfl, -⟩ | ⟨info, id, s₁, found, -, assigned, rfl, -⟩
  · exact ⟨UnorderedMap.sameEntries_refl SameCallback.refl _, rfl⟩
  · have frame := assignThreadgroup_frame s call.callbackName info call.threadgroupId
      call.prevThreadgroupId
    rw [assigned] at frame
    obtain ⟨⟨id', callbacks⟩, adjacency⟩ := frame
    have pushed : (s₁.pushOnlySuccessor call.callbackName id).callbackMap = s₁.callbackMap := by
      unfold pushOnlySuccessor
      split <;> rfl
    rw [pushed, pushOnlySuccessor_adjacencyList]
    exact ⟨callbacks ▸ sameCallback_insert found id', adjacency⟩

end TraversalState

/-! ## The root loop -/

namespace CallbackRegistry

/-- The calls of the root loop. -/
def rootCalls (r : CallbackRegistry) : List TraversalState.Call :=
  r.adjacencyList.roots.map (⟨·, 0, 0⟩)

theorem traverseRoots_eq (stack : Nat) (r : CallbackRegistry) :
    r.traverseRoots stack =
      dfsAll TraversalState.visit TraversalState.stackOverflow stack r.rootCalls
        { toCallbackRegistry := r } := by
  unfold traverseRoots dfsAll rootCalls AdjacencyList.roots
  rw [List.map_map, List.foldlM_map, List.foldlM_filter]
  congr 1
  funext s entry
  simp only [Function.comp_apply, decide_eq_true_eq]
  split
  · exact TraversalState.recursiveCallbackTraversal_eq stack ⟨entry.1, 0, 0⟩ s
  · rfl

/-- An invariant of single visits holds when the root loop returns, and of the
registry it leaves behind when it does not. -/
theorem traverseRoots_invariant (I : TraversalState → List TraversalState.Call → Prop)
    (step : ∀ s c rest s' cs, I s (c :: rest) → TraversalState.visit s c = .ok (s', cs) →
      I s' (cs ++ rest))
    {r : CallbackRegistry} (start : I { toCallbackRegistry := r } r.rootCalls) (stack : Nat) :
    (∀ s, r.traverseRoots stack = .ok s → I s []) ∧
      ∀ thrown, r.traverseRoots stack = .error thrown →
        ∃ s calls, I s calls ∧ thrown.registry = s.toCallbackRegistry := by
  rw [traverseRoots_eq]
  have start' : I { toCallbackRegistry := r } (r.rootCalls ++ []) := by simpa using start
  refine ⟨fun s ran => DepthFirst.dfsAll_ok I step stack _ [] _ s start' ran, fun thrown ran => ?_⟩
  obtain ⟨s, call, rest, inv, visited | rfl⟩ :=
    DepthFirst.dfsAll_error I step stack _ [] _ thrown start' ran
  · refine ⟨s, call :: rest, inv, ?_⟩
    unfold TraversalState.visit at visited
    split at visited
    · cases visited; rfl
    · split at visited <;> cases visited
  · exact ⟨s, call :: rest, inv, rfl⟩

end CallbackRegistry

end PreemptiveExecutor
