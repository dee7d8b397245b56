/-
# Registry.Chains — the adjacency list is the graph of the chains

`ChainStep chains a b` says that `b` comes directly after `a` in some chain.  The
constructor turns nothing else into an outgoing edge (`construct_outgoing`).  It may
leave one out: the record of a single callback is replaced by an empty one, so an edge
an earlier chain has put there is lost.
-/
import PreemptiveExecutor.Theory.Loop
import PreemptiveExecutor.Theory.Acyclic
import PreemptiveExecutor.Registry.Traversal

namespace PreemptiveExecutor

open Theory

set_option autoImplicit false

/-- The pairs of a callback and the one directly after it. -/
def steps (callbacks : List String) : List (String × String) := callbacks.zip callbacks.tail

def ChainStep (userChains : List UserChain) (a b : String) : Prop :=
  ∃ chain ∈ userChains, (a, b) ∈ steps chain.callbacks

/-- The callbacks the chains name. -/
def Named (userChains : List UserChain) (callbackName : String) : Prop :=
  ∃ chain ∈ userChains, callbackName ∈ chain.callbacks

@[simp] theorem steps_nil : steps [] = [] := rfl

@[simp] theorem steps_singleton (a : String) : steps [a] = [] := rfl

@[simp] theorem steps_cons_cons (a b : String) (callbacks : List String) :
    steps (a :: b :: callbacks) = (a, b) :: steps (b :: callbacks) := rfl

theorem named_cons {chain : UserChain} {userChains : List UserChain} {callbackName : String} :
    Named (chain :: userChains) callbackName ↔
      callbackName ∈ chain.callbacks ∨ Named userChains callbackName :=
  List.exists_mem_cons_iff ..

theorem chainStep_cons {chain : UserChain} {userChains : List UserChain} {a b : String} :
    ChainStep (chain :: userChains) a b ↔
      (a, b) ∈ steps chain.callbacks ∨ ChainStep userChains a b :=
  List.exists_mem_cons_iff ..

theorem ChainStep.named {userChains : List UserChain} {a b : String} (step : ChainStep userChains a b) :
    Named userChains a ∧ Named userChains b := by
  obtain ⟨chain, member, inSteps⟩ := step
  obtain ⟨first, second⟩ := List.of_mem_zip inSteps
  exact ⟨⟨chain, member, first⟩, ⟨chain, member, List.mem_of_mem_tail second⟩⟩

namespace CallbackRegistry

variable {deadline period : Uint32} {adjacencyList : AdjacencyList}

/-! ## One callback of a chain -/

theorem mem_addCallback {previous : Option String} {callback name : String} :
    name ∈ addCallback deadline period previous callback adjacencyList ↔
      name = callback ∨ previous = some name ∨ name ∈ adjacencyList := by
  unfold addCallback
  cases previous with
  | none => simp
  | some before => simp only [UnorderedMap.mem_update, Option.some.injEq]; grind

/-- Writing to a record anything but its edges. -/
theorem outgoing_update {callback : String} {f : CallbackAdjacencyInfo → CallbackAdjacencyInfo}
    (keeps : ∀ info, (f info).outgoing = info.outgoing) (name : String) :
    AdjacencyList.outgoing (UnorderedMap.update adjacencyList callback f) name =
      adjacencyList.outgoing name := by
  unfold AdjacencyList.outgoing
  rw [UnorderedMap.subscript_update]
  split
  · rename_i h; subst h; exact keeps _
  · rfl

theorem outgoing_addCallback {previous : Option String} {callback name next : String} :
    next ∈ (addCallback deadline period previous callback adjacencyList).outgoing name ↔
      (previous = some name ∧ next = callback) ∨ next ∈ adjacencyList.outgoing name := by
  unfold addCallback
  rw [outgoing_update (by intro _; rfl)]
  cases previous with
  | none => simp
  | some before =>
      simp only
      rw [outgoing_update (by intro _; rfl), AdjacencyList.outgoing, UnorderedMap.subscript_update]
      split
      · rename_i h; subst h; simp [List.mem_insert_iff, AdjacencyList.outgoing]
      · rename_i h; simp [Ne.symm h, AdjacencyList.outgoing]

/-! ## A chain -/

theorem mem_addCallbacks {name : String} (callbacks : List String) :
    ∀ (previous : Option String) (adjacencyList : AdjacencyList),
      (∀ before, previous = some before → before ∈ adjacencyList) →
      (name ∈ addCallbacks deadline period previous callbacks adjacencyList ↔
        name ∈ callbacks ∨ name ∈ adjacencyList) := by
  induction callbacks with
  | nil => intro previous adjacencyList _; simp [addCallbacks]
  | cons callback rest ih =>
      intro previous adjacencyList present
      rw [addCallbacks, ih _ _ fun before h => mem_addCallback.2 (Or.inl (Option.some.inj h).symm),
        mem_addCallback, List.mem_cons]
      have := fun h => present name h
      tauto

theorem outgoing_addCallbacks (deadline period : Uint32) (name next : String) (callbacks : List String) :
    ∀ (previous : Option String) (adjacencyList : AdjacencyList),
      (next ∈ (addCallbacks deadline period previous callbacks adjacencyList).outgoing name ↔
        (name, next) ∈ steps (previous.toList ++ callbacks) ∨ next ∈ adjacencyList.outgoing name) := by
  induction callbacks with
  | nil => intro previous adjacencyList; cases previous <;> simp [addCallbacks]
  | cons callback rest ih =>
      intro previous adjacencyList
      rw [addCallbacks, ih, outgoing_addCallback]
      cases previous with
      | none => simp
      | some before =>
          simp only [Option.toList_some, List.singleton_append, steps_cons_cons, List.mem_cons,
            Option.some.injEq, Prod.mk.injEq]
          tauto

theorem addChain_ok {chain : UserChain} {after : AdjacencyList} (added : addChain adjacencyList chain =
    .ok after) : (∃ callback, chain.callbacks = [callback] ∧ after = adjacencyList.insert callback {}) ∨
      (2 ≤ chain.callbacks.length ∧
        after = addCallbacks chain.deadline chain.period none chain.callbacks adjacencyList) := by
  unfold addChain at added
  split at added
  · cases added
  · rename_i callback one
    cases added
    exact Or.inl ⟨callback, one, rfl⟩
  · rename_i many single
    cases added
    refine Or.inr ⟨?_, rfl⟩
    match at_ : chain.callbacks with
    | [] => exact absurd at_ many
    | [callback] => exact absurd at_ (single callback)
    | _ :: _ :: rest => simp

theorem mem_addChain {chain : UserChain} {after : AdjacencyList}
    (added : addChain adjacencyList chain = .ok after) (name : String) :
    name ∈ after ↔ name ∈ chain.callbacks ∨ name ∈ adjacencyList := by
  rcases addChain_ok added with ⟨callback, one, rfl⟩ | ⟨-, rfl⟩
  · rw [AList.mem_insert, one, List.mem_singleton]
  · exact mem_addCallbacks _ _ _ fun _ h => nomatch h

theorem outgoing_addChain {chain : UserChain} {after : AdjacencyList}
    (added : addChain adjacencyList chain = .ok after) {name next : String}
    (edge : next ∈ after.outgoing name) :
    (name, next) ∈ steps chain.callbacks ∨ next ∈ adjacencyList.outgoing name := by
  rcases addChain_ok added with ⟨callback, one, rfl⟩ | ⟨-, rfl⟩
  · refine Or.inr ?_
    unfold AdjacencyList.outgoing at edge
    rw [UnorderedMap.subscript_insert] at edge
    split at edge
    · cases edge
    · exact edge
  · exact (outgoing_addCallbacks chain.deadline chain.period name next chain.callbacks none adjacencyList).1 edge

/-! ## All chains -/

variable {preRegistered : PreRegisteredNames} {weakGroupsToNodes : WeakCallbackGroupsToNodesMap}
  {userChains : List UserChain} {r : CallbackRegistry}

theorem foldlM_addChain (chains : List UserChain) :
    ∀ {adjacencyList after : AdjacencyList}, chains.foldlM addChain adjacencyList = .ok after →
      (∀ name, name ∈ after ↔ Named chains name ∨ name ∈ adjacencyList) ∧
      (∀ name next, next ∈ after.outgoing name → ChainStep chains name next ∨
        next ∈ adjacencyList.outgoing name) := by
  induction chains with
  | nil =>
      intro adjacencyList after ran
      cases ran
      simp [Named, ChainStep]
  | cons chain chains ih =>
      intro adjacencyList after ran
      rw [List.foldlM_cons] at ran
      cases added : addChain adjacencyList chain with
      | error error => rw [added] at ran; cases ran
      | ok between =>
          rw [added] at ran
          obtain ⟨keys, edges⟩ := ih ran
          refine ⟨fun name => ?_, fun name next edge => ?_⟩
          · rw [keys, mem_addChain added, named_cons]
            tauto
          · rw [chainStep_cons]
            rcases edges name next edge with step | before
            · exact Or.inl (Or.inr step)
            · exact (outgoing_addChain added before).imp_left Or.inl

theorem construct_chains (constructed : construct preRegistered weakGroupsToNodes userChains = .ok r) :
    userChains.foldlM addChain (∅ : AdjacencyList) = .ok r.adjacencyList := by
  obtain ⟨adjacencyList, chains, rfl⟩ := construct_ok constructed
  exact chains

/-- Chains that all have a callback do not make the constructor fail. -/
theorem construct_returns (preRegistered : PreRegisteredNames) (weakGroupsToNodes : WeakCallbackGroupsToNodesMap)
    (nonempty : ∀ chain ∈ userChains, chain.callbacks ≠ []) :
    ∃ r, construct preRegistered weakGroupsToNodes userChains = .ok r := by
  have neverFails : ∀ error, userChains.foldlM addChain (∅ : AdjacencyList) ≠ .error error :=
    (Loop.foldlM_rule (fun _ => True) (fun _ => False) userChains
    (fun adjacencyList chain member _ => ⟨fun _ _ => trivial, fun error failed => by
      unfold addChain at failed
      split at failed
      · exact nonempty chain member ‹_›
      · cases failed
      · cases failed⟩) trivial).2
  unfold construct
  cases chains : userChains.foldlM addChain (∅ : AdjacencyList) with
  | error error => exact absurd chains (neverFails error)
  | ok adjacencyList => exact ⟨_, rfl⟩

theorem construct_keys (constructed : construct preRegistered weakGroupsToNodes userChains = .ok r)
    (name : String) : name ∈ r.adjacencyList ↔ Named userChains name := by
  have := (foldlM_addChain userChains (construct_chains constructed)).1 name
  simpa [AList.notMem_empty] using this

/-- **Every outgoing edge is a step of a chain.** -/
theorem construct_outgoing (constructed : construct preRegistered weakGroupsToNodes userChains = .ok r)
    {name next : String} (edge : next ∈ r.adjacencyList.outgoing name) :
    ChainStep userChains name next := by
  rcases (foldlM_addChain userChains (construct_chains constructed)).2 name next edge with step | old
  · exact step
  · cases old

/-! ## The graph in an iteration order -/

theorem subscript_adjacencyList (order : IterationOrder) (adjacencyList : AdjacencyList) (name : String) :
    CallbackAdjacencyInfo.Same (UnorderedMap.subscript adjacencyList name)
      (UnorderedMap.subscript (order.adjacencyList adjacencyList) name) :=
  (order.adjacencyList_same adjacencyList).subscript ⟨List.Perm.refl _, rfl, rfl, rfl, rfl⟩ name

theorem outgoing_arranged (order : IterationOrder) (adjacencyList : AdjacencyList) (name : String) :
    (adjacencyList.outgoing name).Perm ((order.adjacencyList adjacencyList).outgoing name) :=
  (subscript_adjacencyList order adjacencyList name).1

theorem indegree_arranged (order : IterationOrder) (adjacencyList : AdjacencyList) (name : String) :
    (order.adjacencyList adjacencyList).indegree name = adjacencyList.indegree name :=
  (subscript_adjacencyList order adjacencyList name).2.1.symm

end CallbackRegistry

end PreemptiveExecutor
