/-
# Registry.ChainWeights — deadlines and periods of the callbacks

A chain of at least two callbacks leaves its deadline and its period with each of
them, once for every place.  A chain of one callback replaces the record of that
callback by an empty one, so what earlier chains have left there is lost.
`storedChains` are the chains a callback has kept, and the record of a callback
says no more than they do (`construct_stores`).
-/
import Mathlib.Order.Bounds.Defs
import Mathlib.Order.WellFounded
import PreemptiveExecutor.Registry.Chains

namespace PreemptiveExecutor

open Theory

set_option autoImplicit false

/-- The chains that a callback has kept after one more chain. -/
def storeChain (callbackName : String) (stored : List UserChain) (chain : UserChain) : List UserChain :=
  match chain.callbacks with
  | [callback] => if callback = callbackName then [] else stored
  | callbacks => stored ++ List.replicate (callbacks.count callbackName) chain

/-- The chains whose deadline and period a callback has, once for every place. -/
def storedChains (userChains : List UserChain) (callbackName : String) : List UserChain :=
  userChains.foldl (storeChain callbackName) []

/-- The deadlines and periods of the record are those of the chains. -/
structure Stores (info : CallbackAdjacencyInfo) (stored : List UserChain) : Prop where
  deadlines : info.deadlines = stored.map UserChain.deadline
  periods : info.periods = stored.map UserChain.period
  minDeadline : ∀ d, d ≤ info.minDeadline ↔ ∀ chain ∈ stored, d ≤ chain.deadline

theorem stores_empty : Stores {} [] :=
  ⟨rfl, rfl, fun d => ⟨fun _ _ member => (by cases member), fun _ => Fin.le_last d⟩⟩

theorem storedChains_concat (userChains : List UserChain) (chain : UserChain) (name : String) :
    storedChains (userChains ++ [chain]) name = storeChain name (storedChains userChains name) chain := by
  unfold storedChains
  rw [List.foldl_concat]

theorem storeChain_long {chain : UserChain} (long : 2 ≤ chain.callbacks.length) (name : String)
    (stored : List UserChain) :
    storeChain name stored chain = stored ++ List.replicate (chain.callbacks.count name) chain := by
  unfold storeChain
  split
  · rename_i callback one
    rw [one, List.length_singleton] at long
    omega
  · rfl

/-- A callback keeps chains through it only. -/
theorem storedChains_subset (userChains : List UserChain) (name : String) {chain : UserChain}
    (stored : chain ∈ storedChains userChains name) : chain ∈ userChains ∧ name ∈ chain.callbacks := by
  induction userChains using List.reverseRecOn with
  | nil => cases stored
  | append_singleton userChains last ih =>
      rw [storedChains_concat] at stored
      have old : chain ∈ storedChains userChains name → chain ∈ userChains ++ [last] ∧ name ∈ chain.callbacks :=
        fun kept => ⟨List.mem_append_left _ (ih kept).1, (ih kept).2⟩
      unfold storeChain at stored
      split at stored
      · split at stored
        · cases stored
        · exact old stored
      · rcases List.mem_append.1 stored with kept | new
        · exact old kept
        · obtain ⟨places, rfl⟩ := List.mem_replicate.1 new
          exact ⟨List.mem_append_right _ (List.mem_singleton_self _), List.count_pos_iff.1 (Nat.pos_of_ne_zero places)⟩

/-- No chain is lost when none is a single callback. -/
theorem mem_storedChains (userChains : List UserChain) (long : ∀ chain ∈ userChains, 2 ≤ chain.callbacks.length)
    (name : String) (chain : UserChain) :
    chain ∈ storedChains userChains name ↔ chain ∈ userChains ∧ name ∈ chain.callbacks := by
  induction userChains using List.reverseRecOn with
  | nil => simp [storedChains]
  | append_singleton userChains last ih =>
      obtain ⟨longBefore, longLast⟩ := List.forall_mem_append.1 long
      rw [storedChains_concat, storeChain_long (longLast last (List.mem_singleton_self _)), List.mem_append,
        ih longBefore, List.mem_replicate, List.mem_append, List.mem_singleton, ← Nat.pos_iff_ne_zero,
        List.count_pos_iff]
      constructor
      · rintro (⟨member, inChain⟩ | ⟨inChain, rfl⟩)
        · exact ⟨Or.inl member, inChain⟩
        · exact ⟨Or.inr rfl, inChain⟩
      · rintro ⟨member | rfl, inChain⟩
        · exact Or.inl ⟨member, inChain⟩
        · exact Or.inr ⟨inChain, rfl⟩

namespace CallbackRegistry

section Weights

variable {adjacencyList after : AdjacencyList} {deadline period : Uint32}

/-- A callback of a chain gets the deadline and the period of the chain; the other
records keep theirs. -/
theorem weights_addCallback (previous : Option String) (callback name : String) :
    (UnorderedMap.subscript (addCallback deadline period previous callback adjacencyList) name).deadlines =
        (UnorderedMap.subscript adjacencyList name).deadlines ++ (if name = callback then [deadline] else []) ∧
      (UnorderedMap.subscript (addCallback deadline period previous callback adjacencyList) name).periods =
        (UnorderedMap.subscript adjacencyList name).periods ++ (if name = callback then [period] else []) ∧
      (UnorderedMap.subscript (addCallback deadline period previous callback adjacencyList) name).minDeadline =
        if name = callback then min (UnorderedMap.subscript adjacencyList name).minDeadline deadline
        else (UnorderedMap.subscript adjacencyList name).minDeadline := by
  unfold addCallback
  by_cases same : name = callback
  · subst same
    cases previous with
    | none => simp [UnorderedMap.subscript_update]
    | some before => by_cases own : name = before <;> simp [UnorderedMap.subscript_update, own]
  · cases previous with
    | none => simp [UnorderedMap.subscript_update, same]
    | some before =>
        by_cases isBefore : name = before
        · subst isBefore
          simp [UnorderedMap.subscript_update, same]
        · simp [UnorderedMap.subscript_update, same, isBefore]

/-- One place of a chain. -/
theorem addCallback_stores {name : String} {stored : List UserChain} (chain : UserChain)
    (stores : Stores (UnorderedMap.subscript adjacencyList name) stored) (previous : Option String)
    (callback : String) :
    Stores (UnorderedMap.subscript
      (addCallback chain.deadline chain.period previous callback adjacencyList) name)
      (stored ++ if name = callback then [chain] else []) := by
  obtain ⟨deadlines, periods, minDeadline⟩ :=
    @weights_addCallback adjacencyList chain.deadline chain.period previous callback name
  by_cases same : name = callback
  · simp only [if_pos same] at deadlines periods minDeadline ⊢
    refine ⟨?_, ?_, fun d => ?_⟩
    · rw [deadlines, stores.deadlines, List.map_append, List.map_singleton]
    · rw [periods, stores.periods, List.map_append, List.map_singleton]
    · rw [minDeadline, le_min_iff, stores.minDeadline, List.forall_mem_append, List.forall_mem_singleton]
  · simp only [if_neg same, List.append_nil] at deadlines periods minDeadline ⊢
    refine ⟨deadlines.trans stores.deadlines, periods.trans stores.periods, fun d => ?_⟩
    rw [minDeadline]
    exact stores.minDeadline d

/-- All places of a chain. -/
theorem addCallbacks_stores {name : String} (chain : UserChain) (callbacks : List String) :
    ∀ (previous : Option String) {adjacencyList : AdjacencyList} {stored : List UserChain},
      Stores (UnorderedMap.subscript adjacencyList name) stored →
      Stores (UnorderedMap.subscript
        (addCallbacks chain.deadline chain.period previous callbacks adjacencyList) name)
        (stored ++ List.replicate (callbacks.count name) chain) := by
  induction callbacks with
  | nil =>
      intro previous adjacencyList stored stores
      rw [List.count_nil, List.replicate_zero, List.append_nil]
      exact stores
  | cons callback rest ih =>
      intro previous adjacencyList stored stores
      have next := ih (some callback) (addCallback_stores chain stores previous callback)
      rw [addCallbacks]
      by_cases same : name = callback
      · subst same
        rw [if_pos rfl, List.append_assoc] at next
        rw [List.count_cons_self, List.replicate_succ]
        exact next
      · rw [if_neg same, List.append_nil] at next
        rw [List.count_cons_of_ne (Ne.symm same)]
        exact next

theorem addChain_stores {name : String} {stored : List UserChain} {chain : UserChain}
    (stores : Stores (UnorderedMap.subscript adjacencyList name) stored)
    (added : addChain adjacencyList chain = .ok after) :
    Stores (UnorderedMap.subscript after name) (storeChain name stored chain) := by
  rcases addChain_ok added with ⟨callback, one, rfl⟩ | ⟨long, rfl⟩
  · rw [UnorderedMap.subscript_insert, storeChain, one]
    by_cases same : name = callback
    · simp only [same, if_true]
      exact stores_empty
    · simp only [if_neg same, if_neg (Ne.symm same)]
      exact stores
  · rw [storeChain_long long]
    exact addCallbacks_stores chain chain.callbacks none stores

end Weights

variable {preRegistered : PreRegisteredNames} {weakGroupsToNodes : WeakCallbackGroupsToNodesMap}
  {userChains : List UserChain} {r : CallbackRegistry}

/-- **The record of a callback is that of the chains it has kept.** -/
theorem construct_stores (constructed : construct preRegistered weakGroupsToNodes userChains = .ok r)
    (name : String) : Stores (UnorderedMap.subscript r.adjacencyList name) (storedChains userChains name) := by
  have start : Stores (UnorderedMap.subscript (∅ : AdjacencyList) name) [] := stores_empty
  exact Loop.foldlM_follows
    (fun adjacencyList stored => Stores (UnorderedMap.subscript adjacencyList name) stored) (storeChain name)
    userChains (fun _ _ _ _ _ stores added => addChain_stores stores added) start (construct_chains constructed)

theorem stores_arranged {adjacencyList : AdjacencyList} {name : String} {stored : List UserChain}
    (stores : Stores (UnorderedMap.subscript adjacencyList name) stored) (order : IterationOrder) :
    Stores (UnorderedMap.subscript (order.adjacencyList adjacencyList) name) stored := by
  obtain ⟨-, -, deadlines, periods, minDeadline⟩ := subscript_adjacencyList order adjacencyList name
  exact ⟨deadlines.symm.trans stores.deadlines, periods.symm.trans stores.periods,
    fun d => minDeadline ▸ stores.minDeadline d⟩

/-- The `min_deadline` of a callback is the tightest deadline of a chain through it. -/
theorem minDeadline_isLeast (constructed : construct preRegistered weakGroupsToNodes userChains = .ok r)
    (long : ∀ chain ∈ userChains, 2 ≤ chain.callbacks.length) {name : String} (named : Named userChains name) :
    IsLeast {deadline | ∃ chain ∈ userChains, name ∈ chain.callbacks ∧ chain.deadline = deadline}
      (r.adjacencyList.minDeadline name) := by
  have below : ∀ d, d ≤ r.adjacencyList.minDeadline name ↔
      ∀ chain ∈ userChains, name ∈ chain.callbacks → d ≤ chain.deadline := by
    intro d
    rw [AdjacencyList.minDeadline, (construct_stores constructed name).minDeadline]
    simp only [mem_storedChains userChains long, and_imp]
  obtain ⟨chain, member, inChain⟩ := named
  obtain ⟨least, ⟨first, memberFirst, inFirst, rfl⟩, isLeast⟩ := WellFounded.has_min wellFounded_lt
    {deadline | ∃ chain ∈ userChains, name ∈ chain.callbacks ∧ chain.deadline = deadline}
    ⟨chain.deadline, chain, member, inChain, rfl⟩
  have same : r.adjacencyList.minDeadline name = first.deadline := by
    refine le_antisymm ((below _).1 le_rfl first memberFirst inFirst) ((below _).2 fun chain member inChain => ?_)
    exact not_lt.1 (isLeast chain.deadline ⟨chain, member, inChain, rfl⟩)
  rw [same]
  refine ⟨⟨first, memberFirst, inFirst, rfl⟩, ?_⟩
  rintro deadline ⟨chain, member, inChain, rfl⟩
  exact not_lt.1 (isLeast chain.deadline ⟨chain, member, inChain, rfl⟩)

end CallbackRegistry

end PreemptiveExecutor
