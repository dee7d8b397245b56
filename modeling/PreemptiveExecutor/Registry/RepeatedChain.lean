/-
# Registry.RepeatedChain — what one more copy of a chain changes

The edges of the callback graph are kept in sets, so a chain that is there already
adds none.  The indegree, though, is counted up for every occurrence: it is the
number of places in which the callback comes after another one (`construct_indegree`).
With a second copy of its chain a callback of one predecessor has indegree 2, and the
traversal starts it afresh where it went on into it before.

`repeatedChain_iff` says which callbacks of a chain make that a different grouping.
-/
import PreemptiveExecutor.Registry.Continuation
import PreemptiveExecutor.Registry.RootFormula

namespace PreemptiveExecutor

open Theory
open Relation (ReflTransGen TransGen)

set_option autoImplicit false

/-- The number of places in which a callback comes directly after another one. -/
def places (userChains : List UserChain) (callbackName : String) : Nat :=
  (userChains.flatMap fun chain => chain.callbacks.tail).count callbackName

theorem places_cons (chain : UserChain) (userChains : List UserChain) (callbackName : String) :
    places (chain :: userChains) callbackName =
      chain.callbacks.tail.count callbackName + places userChains callbackName := by
  rw [places, List.flatMap_cons, List.count_append, places]

theorem map_snd_steps (callbacks : List String) : (steps callbacks).map Prod.snd = callbacks.tail := by
  unfold steps
  exact List.map_snd_zip (by rw [List.length_tail]; exact Nat.sub_le _ _)

/-- A callback that comes after another one in one place has one predecessor. -/
theorem chainStep_unique {userChains : List UserChain} {a b next : String} (one : places userChains next = 1)
    (step : ChainStep userChains a next) (step' : ChainStep userChains b next) : b = a := by
  have tails : (userChains.flatMap fun chain => chain.callbacks.tail) =
      (userChains.flatMap fun chain => steps chain.callbacks).map Prod.snd := by
    rw [List.map_flatMap]
    simp only [map_snd_steps]
  have counted : ((userChains.flatMap fun chain => steps chain.callbacks).filter
      fun step => step.2 == next).length = 1 := by
    rw [← List.countP_eq_length_filter, ← one, places, tails, List.count, List.countP_map]
    rfl
  obtain ⟨only, isOnly⟩ := List.length_eq_one_iff.1 counted
  have is : ∀ c, ChainStep userChains c next → (c, next) = only := by
    rintro c ⟨chain, member, isStep⟩
    rw [← List.mem_singleton, ← isOnly, List.mem_filter]
    exact ⟨List.mem_flatMap.2 ⟨chain, member, isStep⟩, by simp⟩
  exact congrArg Prod.fst ((is b step').trans (is a step).symm)

/-- Where the steps have no cycle, no chain comes back to a callback. -/
theorem callbacks_nodup {userChains : List UserChain} (acyclic : Acyclic (ChainStep userChains))
    {chain : UserChain} (member : chain ∈ userChains) : chain.callbacks.Nodup := by
  have linked : ∀ callbacks : List String, (∀ a b, (a, b) ∈ steps callbacks → ChainStep userChains a b) →
      callbacks.IsChain (TransGen (ChainStep userChains)) := by
    intro callbacks
    induction callbacks with
    | nil => exact fun _ => .nil
    | cons a rest ih =>
        intro isStep
        cases rest with
        | nil => exact .singleton a
        | cons b rest =>
            rw [steps_cons_cons] at isStep
            exact .cons_cons (.single (isStep a b List.mem_cons_self))
              (ih fun c d later => isStep c d (List.mem_cons_of_mem _ later))
  refine (linked chain.callbacks fun a b isStep => ⟨chain, member, isStep⟩).pairwise.imp ?_
  rintro a b path rfl
  exact acyclic a path

namespace CallbackRegistry

section Indegrees

variable {deadline period : Uint32} {adjacencyList after : AdjacencyList}

theorem indegree_addCallback (previous : Option String) (callback name : String) :
    (addCallback deadline period previous callback adjacencyList).indegree name =
      if previous.isSome ∧ name = callback then adjacencyList.indegree name + 1
      else adjacencyList.indegree name := by
  unfold addCallback AdjacencyList.indegree
  cases previous with
  | none =>
      by_cases same : name = callback
      · subst same
        simp [UnorderedMap.subscript_update]
      · simp [UnorderedMap.subscript_update, same]
  | some before =>
      by_cases same : name = callback
      · subst same
        by_cases own : name = before <;> simp [UnorderedMap.subscript_update, own]
      · by_cases isBefore : name = before
        · subst isBefore
          simp [UnorderedMap.subscript_update, same]
        · simp [UnorderedMap.subscript_update, same, isBefore]

theorem indegree_addCallbacks (name : String) (callbacks : List String) :
    ∀ (previous : Option String) (adjacencyList : AdjacencyList),
      ((addCallbacks deadline period previous callbacks adjacencyList).indegree name).val =
        ((adjacencyList.indegree name).val +
          (if previous.isSome then callbacks else callbacks.tail).count name) % 2 ^ 8 := by
  induction callbacks with
  | nil =>
      intro previous adjacencyList
      have small := Nat.mod_eq_of_lt (adjacencyList.indegree name).isLt
      cases previous <;> simpa [addCallbacks] using small.symm
  | cons callback rest ih =>
      intro previous adjacencyList
      rw [addCallbacks, ih, indegree_addCallback]
      have small := Nat.mod_eq_of_lt (adjacencyList.indegree name).isLt
      cases previous with
      | none => simp
      | some before =>
          by_cases same : name = callback
          · subst same
            simp [Fin.val_add]
            omega
          · have other : ¬ callback = name := fun h => same h.symm
            simp [same, other]

/-- **The stored indegree is the number of places**, modulo 256. -/
theorem construct_indegree {preRegistered : PreRegisteredNames}
    {weakGroupsToNodes : WeakCallbackGroupsToNodesMap} {userChains : List UserChain} {r : CallbackRegistry}
    (constructed : construct preRegistered weakGroupsToNodes userChains = .ok r)
    (long : ∀ chain ∈ userChains, 2 ≤ chain.callbacks.length) (name : String) :
    (r.adjacencyList.indegree name).val = places userChains name % 2 ^ 8 := by
  have ran : ∀ (chains : List UserChain) {adjacencyList after : AdjacencyList},
      (∀ chain ∈ chains, 2 ≤ chain.callbacks.length) → chains.foldlM addChain adjacencyList = .ok after →
      (after.indegree name).val = ((adjacencyList.indegree name).val + places chains name) % 2 ^ 8 := by
    intro chains
    induction chains with
    | nil =>
        intro adjacencyList after _ ran
        cases ran
        exact (Nat.mod_eq_of_lt (adjacencyList.indegree name).isLt).symm
    | cons chain chains ih =>
        intro adjacencyList after long ran
        obtain ⟨here, later⟩ := List.forall_mem_cons.1 long
        rw [List.foldlM_cons] at ran
        cases added : addChain adjacencyList chain with
        | error error => rw [added] at ran; cases ran
        | ok between =>
            rw [added] at ran
            rcases addChain_ok added with ⟨callback, isOne, -⟩ | ⟨-, rfl⟩
            · rw [isOne] at here
              exact absurd here (by simp)
            · rw [ih later ran, indegree_addCallbacks, places_cons]
              simp [Nat.add_assoc]
  rw [ran userChains long (construct_chains constructed)]
  congr 1
  exact Nat.zero_add _

end Indegrees

end CallbackRegistry

/-! ## Shared threadgroups -/

namespace TraversalState

/-- Two callbacks have been assigned one threadgroup. -/
def Shares (s : TraversalState) (a b : String) : Prop :=
  ∃ info info', s.callbackMap.lookup a = some info ∧ s.callbackMap.lookup b = some info' ∧
    info.threadgroupId ≠ 0 ∧ info'.threadgroupId = info.threadgroupId

theorem shares_iff {r : CallbackRegistry} {s : TraversalState} {forest : Forest}
    (refines : Refines r s forest [] []) (a b : String) :
    s.Shares a b ↔ a ∈ forest.names ∧ b ∈ forest.names ∧ r.joins forest a = r.joins forest b := by
  have names := refines.names
  constructor
  · rintro ⟨info, info', found, found', assigned, same⟩
    have visited := (names.visited a).2 ⟨info, found, assigned⟩
    have visited' := (names.visited b).2 ⟨info', found', same ▸ assigned⟩
    refine ⟨visited, visited', names.injective _ _ (refines.grown.joined visited)
      (refines.grown.joined visited') ?_⟩
    rw [← names.joined a visited info found, ← names.joined b visited' info' found', same]
  · rintro ⟨visited, visited', same⟩
    obtain ⟨info, found, assigned⟩ := (names.visited a).1 visited
    obtain ⟨info', found', -⟩ := (names.visited b).1 visited'
    refine ⟨info, info', found, found', assigned, ?_⟩
    rw [names.joined a visited info found, names.joined b visited' info' found', same]

end TraversalState

namespace CallbackRegistry

/-! ## One more copy of a chain -/

/-- A registry, and the one of the same chains with one more copy of a chain, as far
as the traversal sees them: the copy takes a stored indegree of 1 from those callbacks
of the chain that have one. -/
structure Repeated (r r' : CallbackRegistry) (chain : UserChain) : Prop where
  owner : ∀ name, r'.owner name = r.owner name
  outgoing : ∀ name, r'.adjacencyList.outgoing name = r.adjacencyList.outgoing name
  roots : ∀ name, name ∈ r'.adjacencyList.roots ↔ name ∈ r.adjacencyList.roots
  indegree : ∀ name, r'.adjacencyList.indegree name = 1 ↔
    r.adjacencyList.indegree name = 1 ∧ name ∉ chain.callbacks.tail
  one : r.adjacencyList.OnePredecessor

/-- The copy makes no difference: a callback that goes on into one of the chain's has
no successors but visited ones; and the threadgroup in which it goes on from there to
a Reentrant callback, before the next one of the chain's, is that of the callback it
has gone on into. -/
structure HarmlessRepeat (r : CallbackRegistry) (chain : UserChain) : Prop where
  successors : ∀ before restarted next, r.Visits before →
    r.adjacencyList.ContinuesInto before restarted → restarted ∈ chain.callbacks.tail →
    next ∈ r.adjacencyList.outgoing before → r.Visits next
  continued : ∀ before restarted name head, r.Visits before →
    r.adjacencyList.ContinuesInto before restarted → restarted ∈ chain.callbacks.tail →
    ReflTransGen (fun a b => r.adjacencyList.ContinuesInto a b ∧ b ∉ chain.callbacks.tail) restarted name →
    r.Visits name → (r.owner name).isMutex = false → r.adjacencyList.ContinuedFrom head before →
    r.owner restarted = r.owner head

namespace Repeated

variable {r r' : CallbackRegistry} {chain : UserChain} {forest forest' : Forest}

theorem continuesInto (repeated : Repeated r r' chain) {before next : String} :
    r'.adjacencyList.ContinuesInto before next ↔
      r.adjacencyList.ContinuesInto before next ∧ next ∉ chain.callbacks.tail := by
  unfold AdjacencyList.ContinuesInto
  rw [repeated.outgoing, repeated.indegree, and_assoc]

theorem one' (repeated : Repeated r r' chain) : r'.adjacencyList.OnePredecessor := by
  rintro a b next ⟨edge, single⟩ edge'
  rw [repeated.outgoing] at edge edge'
  exact repeated.one a b next ⟨edge, ((repeated.indegree next).1 single).1⟩ edge'

/-- With the copy a callback follows what it followed without it, and all of its
successors where it went on into a callback of the chain. -/
theorem mem_followed (repeated : Repeated r r' chain) {before next : String} :
    next ∈ r'.adjacencyList.followed before ↔ next ∈ r.adjacencyList.followed before ∨
      next ∈ r.adjacencyList.outgoing before ∧
        ∃ restarted ∈ chain.callbacks.tail, r.adjacencyList.ContinuesInto before restarted := by
  cases continuing : r.adjacencyList.continues before with
  | false =>
      have restarting : r'.adjacencyList.continues before = false := by
        rw [Bool.eq_false_iff, Ne, AdjacencyList.continues_iff]
        rintro ⟨next, goesOn⟩
        rw [AdjacencyList.continues_iff.2 ⟨next, (repeated.continuesInto.1 goesOn).1⟩] at continuing
        cases continuing
      rw [AdjacencyList.followed_of_not_continues restarting, AdjacencyList.followed_of_not_continues continuing,
        repeated.outgoing]
      exact (or_iff_left_of_imp And.left).symm
  | true =>
      obtain ⟨first, only, isFirst, single⟩ := AdjacencyList.followed_of_continues continuing
      have goesOn : r.adjacencyList.ContinuesInto before first := ⟨isFirst, single⟩
      by_cases inChain : first ∈ chain.callbacks.tail
      · have restarting : r'.adjacencyList.continues before = false := by
          rw [Bool.eq_false_iff, Ne, AdjacencyList.continues_iff]
          rintro ⟨next, goesOn', single'⟩
          rw [repeated.outgoing, isFirst] at goesOn'
          cases goesOn'
          exact ((repeated.indegree first).1 single').2 inChain
        rw [AdjacencyList.followed_of_not_continues restarting, repeated.outgoing]
        refine ⟨fun edge => Or.inr ⟨edge, first, inChain, goesOn⟩, ?_⟩
        rintro (follows | ⟨edge, -⟩)
        · exact AdjacencyList.followed_subset_outgoing _ _ follows
        · exact edge
      · have goesOn' := repeated.continuesInto.2 ⟨goesOn, inChain⟩
        obtain ⟨first', only', isFirst', -⟩ := AdjacencyList.followed_of_continues
          (AdjacencyList.continues_iff.2 ⟨_, goesOn'⟩)
        rw [repeated.outgoing, isFirst] at isFirst'
        cases isFirst'
        rw [only, only']
        refine ⟨Or.inl, ?_⟩
        rintro (follows | ⟨-, restarted, member, restarts, -⟩)
        · exact follows
        · rw [isFirst] at restarts
          cases restarts
          exact absurd member inChain

/-- What is visited without the copy is visited with it. -/
theorem visits (repeated : Repeated r r' chain) {name : String} (visited : r.Visits name) : r'.Visits name := by
  obtain ⟨root, isRoot, path⟩ := visited
  exact ⟨root, (repeated.roots root).2 isRoot, path.lift id fun _ _ edge => repeated.mem_followed.2 (Or.inl edge)⟩

/-- And nothing else, if the successors the copy adds have been visited. -/
theorem visits_of_visits (repeated : Repeated r r' chain)
    (successors : ∀ before restarted next, r.Visits before →
      r.adjacencyList.ContinuesInto before restarted → restarted ∈ chain.callbacks.tail →
      next ∈ r.adjacencyList.outgoing before → r.Visits next) {name : String} (visited : r'.Visits name) :
    r.Visits name := by
  obtain ⟨root, isRoot, path⟩ := visited
  induction path with
  | refl => exact ⟨root, (repeated.roots root).1 isRoot, .refl⟩
  | tail _ edge ih =>
      rcases repeated.mem_followed.1 edge with follows | ⟨edge, restarted, member, goesOn⟩
      · obtain ⟨root', isRoot', path'⟩ := ih
        exact ⟨root', isRoot', path'.tail follows⟩
      · exact successors _ restarted _ ih goesOn member edge

theorem compared (repeated : Repeated r r' chain) (called : r.adjacencyList.Called forest)
    (called' : r'.adjacencyList.Called forest') (names : ∀ name, name ∈ forest'.names ↔ name ∈ forest.names) :
    Compared r r' forest forest' where
  owner := repeated.owner
  called := called
  called' := called'
  one := repeated.one
  one' := repeated.one'
  outgoing before name := by rw [repeated.outgoing]
  indegree name single := ((repeated.indegree name).1 single).1
  names := names

/-- The owners stay the same exactly if each restart the copy brings is harmless. -/
theorem sameOwners_iff (repeated : Repeated r r' chain) (compared : Compared r r' forest forest') :
    SameOwners r r' forest forest' ↔ ∀ before restarted name head, before ∈ forest.names →
      r.adjacencyList.ContinuesInto before restarted → restarted ∈ chain.callbacks.tail →
      ReflTransGen (fun a b => r.adjacencyList.ContinuesInto a b ∧ b ∉ chain.callbacks.tail) restarted name →
      name ∈ forest.names → (r.owner name).isMutex = false → r.adjacencyList.ContinuedFrom head before →
      r.owner restarted = r.owner head := by
  have both : ∀ a b, r.BothContinue r' a b ↔ r.adjacencyList.ContinuesInto a b ∧ b ∉ chain.callbacks.tail :=
    fun a b => by
      rw [BothContinue, repeated.continuesInto]
      tauto
  rw [compared.sameOwners_iff_harmless]
  constructor
  · rintro ⟨harmless, -⟩ before restarted name head known goesOn inChain path
    exact harmless before restarted name head known goesOn
      (fun goesOn' => (repeated.continuesInto.1 goesOn').2 inChain) (path.lift id fun a b step => (both a b).2 step)
  · intro harmless
    constructor
    · intro before restarted name head known goesOn restarts path
      have inChain : restarted ∈ chain.callbacks.tail := by
        by_contra outside
        exact restarts (repeated.continuesInto.2 ⟨goesOn, outside⟩)
      exact harmless before restarted name head known goesOn inChain (path.lift id fun a b step => (both a b).1 step)
    · intro before restarted name head known goesOn restarts
      exact absurd (repeated.continuesInto.1 goesOn).1 restarts

end Repeated

/-! ## The allocation with one more copy -/

/-- The stored indegrees tell what they are taken for: an indegree of 1 that there is
one place, and the ones the copy counts up are not 0 or 1 afterwards. -/
structure Unwrapped (userChains : List UserChain) (chain : UserChain) : Prop where
  one : ∀ name, places userChains name % 2 ^ 8 = 1 → places userChains name = 1
  repeated : ∀ name ∈ chain.callbacks.tail, 1 < (places userChains name + 1) % 2 ^ 8

/-- Two adjacency lists iterated in the same order, as are their sets of edges. -/
structure SameIteration (adjacencyList adjacencyList' : AdjacencyList) : Prop where
  keys : adjacencyList'.keys = adjacencyList.keys
  outgoing : ∀ name, adjacencyList'.outgoing name = adjacencyList.outgoing name

section Constructed

variable {preRegistered : PreRegisteredNames} {weakGroupsToNodes : WeakCallbackGroupsToNodesMap}
  {userChains userChains' : List UserChain} {chain : UserChain} {chainName : String}
  {r r' : CallbackRegistry} {order order' : IterationOrder}

/-- The copy counts up the places of the callbacks of the chain, but for the first. -/
theorem places_repeated (repeated : userChains'.Perm ({ chain with chainName } :: userChains))
    (nodup : chain.callbacks.Nodup) (name : String) :
    places userChains' name = places userChains name + if name ∈ chain.callbacks.tail then 1 else 0 := by
  have same : places userChains' name = places ({ chain with chainName } :: userChains) name :=
    (repeated.flatMap_right _).count_eq name
  rw [same, places_cons, Nat.add_comm]
  congr 1
  exact nodup.tail.count

theorem Repeated.of_construct
    (constructed : construct preRegistered weakGroupsToNodes userChains = .ok r)
    (constructed' : construct preRegistered weakGroupsToNodes userChains' = .ok r')
    (repeated : userChains'.Perm ({ chain with chainName } :: userChains)) (member : chain ∈ userChains)
    (long : ∀ chain ∈ userChains, 2 ≤ chain.callbacks.length) (acyclic : Acyclic (ChainStep userChains))
    (unwrapped : Unwrapped userChains chain)
    (same : SameIteration (r.arrange order).adjacencyList (r'.arrange order').adjacencyList) :
    Repeated (r.arrange order) (r'.arrange order') chain := by
  have long' : ∀ chain ∈ userChains', 2 ≤ chain.callbacks.length := by
    intro chain' member'
    rcases List.mem_cons.1 (repeated.mem_iff.1 member') with rfl | old
    · exact long chain member
    · exact long chain' old
  have stored : ∀ name, ((r.arrange order).adjacencyList.indegree name).val = places userChains name % 2 ^ 8 :=
    fun name => by rw [indegree_arranged, construct_indegree constructed long]
  have stored' : ∀ name, ((r'.arrange order').adjacencyList.indegree name).val =
      (places userChains name + if name ∈ chain.callbacks.tail then 1 else 0) % 2 ^ 8 := fun name => by
    rw [indegree_arranged, construct_indegree constructed' long',
      places_repeated repeated (callbacks_nodup acyclic member)]
  have zeroVal : (0 : Uint8).val = 0 := rfl
  have oneVal : (1 : Uint8).val = 1 := rfl
  refine ⟨fun name => ?_, same.outgoing, fun name => ?_, fun name => ?_, fun a b next single edge => ?_⟩
  · obtain ⟨adjacencyList, -, rfl⟩ := construct_ok constructed
    obtain ⟨adjacencyList', -, rfl⟩ := construct_ok constructed'
    rfl
  · rw [AdjacencyList.mem_roots_iff, AdjacencyList.mem_roots_iff, AList.mem_keys, AList.mem_keys, same.keys, Fin.ext_iff, Fin.ext_iff,
      stored, stored', zeroVal]
    by_cases inChain : name ∈ chain.callbacks.tail
    · have counted := unwrapped.repeated name inChain
      rw [if_pos inChain]
      refine and_congr_right fun _ => ?_
      omega
    · rw [if_neg inChain, Nat.add_zero]
  · rw [Fin.ext_iff, Fin.ext_iff, stored, stored', oneVal]
    by_cases inChain : name ∈ chain.callbacks.tail
    · have counted := unwrapped.repeated name inChain
      rw [if_pos inChain]
      refine ⟨fun isOne => ?_, fun ⟨_, outside⟩ => absurd inChain outside⟩
      omega
    · rw [if_neg inChain, Nat.add_zero]
      exact (and_iff_left inChain).symm
  · obtain ⟨edge', isOne⟩ := single
    rw [Fin.ext_iff, stored] at isOne
    exact chainStep_unique (unwrapped.one next isOne)
      (construct_outgoing constructed ((outgoing_arranged order _ a).mem_iff.2 edge'))
      (construct_outgoing constructed ((outgoing_arranged order _ b).mem_iff.2 edge))

/-- The callbacks of the forest are those the root loop comes to. -/
theorem mem_names_iff (constructed : construct preRegistered weakGroupsToNodes userChains = .ok r)
    {stack : Nat} {s : TraversalState} (ran : traverseRoots stack (r.arrange order) = .ok s) {forest : Forest}
    (refines : TraversalState.Refines (r.arrange order) s forest [] []) (name : String) :
    name ∈ forest.names ↔ (r.arrange order).Visits name :=
  (refines.names.visited name).trans (traverseRoots_assigned ((construct_sound constructed).arrange order)
    (fun name => construct_unassigned constructed name) ran name)

/-- **One more copy of a chain leaves the grouping as it is exactly if it is a
`HarmlessRepeat`.** -/
theorem repeatedChain_iff
    (constructed : construct preRegistered weakGroupsToNodes userChains = .ok r)
    (constructed' : construct preRegistered weakGroupsToNodes userChains' = .ok r')
    (repeated : userChains'.Perm ({ chain with chainName } :: userChains)) (member : chain ∈ userChains)
    (long : ∀ chain ∈ userChains, 2 ≤ chain.callbacks.length) (acyclic : Acyclic (ChainStep userChains))
    (unwrapped : Unwrapped userChains chain)
    (same : SameIteration (r.arrange order).adjacencyList (r'.arrange order').adjacencyList)
    {stack stack' : Nat} {s s' : TraversalState} (ran : traverseRoots stack (r.arrange order) = .ok s)
    (ran' : traverseRoots stack' (r'.arrange order') = .ok s') :
    (∀ a b, s'.Shares a b ↔ s.Shares a b) ↔ (r.arrange order).HarmlessRepeat chain := by
  have copies := Repeated.of_construct constructed constructed' repeated member long acyclic unwrapped same
  obtain ⟨forest, isForest, refines⟩ := traverseRoots_refines (construct_fresh constructed order) ran
  obtain ⟨forest', isForest', refines'⟩ := traverseRoots_refines (construct_fresh constructed' order') ran'
  have visits := mem_names_iff constructed ran refines
  have visits' := mem_names_iff constructed' ran' refines'
  constructor
  · intro shares
    -- a callback shares a threadgroup with itself if it has one
    have names : ∀ name, name ∈ forest'.names ↔ name ∈ forest.names := fun name => by
      have := shares name name
      rw [TraversalState.shares_iff refines, TraversalState.shares_iff refines'] at this
      simpa using this
    have compared := copies.compared isForest.called isForest'.called names
    have owners : SameOwners (r.arrange order) (r'.arrange order') forest forest' := by
      refine compared.samePartition_iff_sameOwners.1 fun a visited b visited' => ?_
      have := shares a b
      rw [TraversalState.shares_iff refines, TraversalState.shares_iff refines', names, names] at this
      simpa [visited, visited'] using this.symm
    constructor
    · intro before restarted next known goesOn inChain edge
      rw [← visits, ← names, visits']
      obtain ⟨root, isRoot, path⟩ := copies.visits known
      exact ⟨root, isRoot, path.tail (copies.mem_followed.2 (Or.inr ⟨edge, restarted, inChain, goesOn⟩))⟩
    · intro before restarted name head known goesOn inChain path visited
      exact (copies.sameOwners_iff compared).1 owners before restarted name head ((visits before).2 known) goesOn
        inChain path ((visits name).2 visited)
  · intro harmless a b
    have names : ∀ name, name ∈ forest'.names ↔ name ∈ forest.names := by
      intro name
      rw [visits, visits']
      exact ⟨copies.visits_of_visits harmless.successors, copies.visits⟩
    have compared := copies.compared isForest.called isForest'.called names
    have owners := (copies.sameOwners_iff compared).2 fun before restarted name head known goesOn inChain path visited =>
      harmless.continued before restarted name head ((visits before).1 known) goesOn inChain path
        ((visits name).1 visited)
    rw [TraversalState.shares_iff refines, TraversalState.shares_iff refines', names, names]
    refine and_congr_right fun visited => and_congr_right fun visited' => ?_
    rw [owners a visited, owners b visited']

end Constructed

/-! ### Two callbacks and a copy of their chain -/

/-- `camera` and `detect`. -/
def nearChain : UserChain := { chainName := "near", callbacks := ["camera", "detect"], deadline := 10, period := 5 }

/-- The same chain twice. -/
def twoChains : List UserChain := [{ nearChain with chainName := "far" }, nearChain]

theorem nearChain_long : ∀ chain ∈ [nearChain], 2 ≤ chain.callbacks.length := by decide

theorem nearChain_acyclic : Acyclic (ChainStep [nearChain]) :=
  .of_rank (fun name => if name = "camera" then 0 else 1) fun a b step => by
    have steps_ : a = "camera" ∧ b = "detect" := by simpa [ChainStep, nearChain, steps] using step
    obtain ⟨rfl, rfl⟩ := steps_
    decide

theorem nearChain_unwrapped : Unwrapped [nearChain] nearChain := by
  have counted : ∀ name, places [nearChain] name = if name = "detect" then 1 else 0 := by
    intro name
    by_cases same : name = "detect"
    · subst same
      decide
    · have other : ¬ "detect" = name := fun h => same h.symm
      simp [places, nearChain, other, same]
  refine ⟨fun name single => ?_, fun name inChain => ?_⟩
  · rw [counted] at single ⊢
    split at single <;> simp_all
  · obtain rfl : name = "detect" := by simpa [nearChain] using inChain
    decide

theorem sameIteration_of_keys {adjacencyList adjacencyList' : AdjacencyList}
    (keys : adjacencyList'.keys = adjacencyList.keys)
    (edges : ∀ name ∈ adjacencyList.keys, adjacencyList'.outgoing name = adjacencyList.outgoing name) :
    SameIteration adjacencyList adjacencyList' := by
  refine ⟨keys, fun name => ?_⟩
  by_cases present : name ∈ adjacencyList.keys
  · exact edges name present
  · have absent' : name ∉ adjacencyList'.keys := keys ▸ present
    rw [← AList.mem_keys] at present absent'
    rw [AdjacencyList.outgoing, AdjacencyList.outgoing, UnorderedMap.subscript, UnorderedMap.subscript,
      AList.lookup_eq_none.2 present, AList.lookup_eq_none.2 absent']

/-- **A copy of the chain takes `detect` out of the threadgroup of `camera`.** -/
theorem repeatedChain_regroups :
    ∃ r r' s s', construct nearFarNames nearFarGroups [nearChain] = .ok r ∧
      construct nearFarNames nearFarGroups twoChains = .ok r' ∧
      (∀ chain ∈ [nearChain], 2 ≤ chain.callbacks.length) ∧ Acyclic (ChainStep [nearChain]) ∧
      SameIteration (r.arrange .stored).adjacencyList (r'.arrange .stored).adjacencyList ∧
      traverseRoots 4 (r.arrange .stored) = .ok s ∧ traverseRoots 4 (r'.arrange .stored) = .ok s' ∧
      s.Shares "camera" "detect" ∧ ¬ s'.Shares "camera" "detect" := by
  obtain ⟨r, constructed, runs⟩ := Loop.exists_ok_of_any
    (x := construct nearFarNames nearFarGroups [nearChain])
    (p := fun r => (construct nearFarNames nearFarGroups twoChains).toOption.any fun r' =>
      (r'.adjacencyList.keys = r.adjacencyList.keys ∧
        ∀ name ∈ r.adjacencyList.keys, r'.adjacencyList.outgoing name = r.adjacencyList.outgoing name) ∧
      ((traverseRoots 4 (r.arrange .stored)).toOption.any fun s =>
        (s.callbackMap.lookup "camera").map CallbackInfo.threadgroupId = some 1 ∧
          (s.callbackMap.lookup "detect").map CallbackInfo.threadgroupId = some 1) ∧
      (traverseRoots 4 (r'.arrange .stored)).toOption.any fun s' =>
        (s'.callbackMap.lookup "camera").map CallbackInfo.threadgroupId = some 1 ∧
          (s'.callbackMap.lookup "detect").map CallbackInfo.threadgroupId = some 2) (by decide)
  obtain ⟨r', constructed', runs⟩ := Loop.exists_ok_of_any runs
  obtain ⟨⟨keys, edges⟩, runs, runs'⟩ := of_decide_eq_true runs
  obtain ⟨s, ran, ids⟩ := Loop.exists_ok_of_any runs
  obtain ⟨s', ran', ids'⟩ := Loop.exists_ok_of_any runs'
  refine ⟨r, r', s, s', constructed, constructed', nearChain_long, nearChain_acyclic,
    sameIteration_of_keys keys edges, ran, ran', ?_, ?_⟩
  · obtain ⟨camera, detect⟩ := of_decide_eq_true ids
    obtain ⟨info, found, isOne⟩ := Option.map_eq_some_iff.1 camera
    obtain ⟨info', found', isOne'⟩ := Option.map_eq_some_iff.1 detect
    exact ⟨info, info', found, found', by rw [isOne]; decide, isOne'.trans isOne.symm⟩
  · rintro ⟨info, info', found, found', -, same⟩
    obtain ⟨camera, detect⟩ := of_decide_eq_true ids'
    rw [found] at camera
    rw [found'] at detect
    exact absurd ((Option.some.inj detect).symm.trans (same.trans (Option.some.inj camera))) (by decide)

/-- `detect` in a mutex group of its own. -/
def mutexDetectGroups : WeakCallbackGroupsToNodesMap :=
  [⟨some (subscriptionGroup 1 .reentrant [10]), some 100⟩,
    ⟨some (subscriptionGroup 2 .mutuallyExclusive [11]), some 100⟩]

/-- In a mutex group `detect` is in the same threadgroup with the copy and without it. -/
theorem repeatedChain_mutex :
    ∃ r r' s s', construct nearFarNames mutexDetectGroups [nearChain] = .ok r ∧
      construct nearFarNames mutexDetectGroups twoChains = .ok r' ∧
      traverseRoots 4 (r.arrange .stored) = .ok s ∧ traverseRoots 4 (r'.arrange .stored) = .ok s' ∧
      ∀ a b, s'.Shares a b ↔ s.Shares a b := by
  obtain ⟨r, constructed, runs⟩ := Loop.exists_ok_of_any
    (x := construct nearFarNames mutexDetectGroups [nearChain])
    (p := fun r => (construct nearFarNames mutexDetectGroups twoChains).toOption.any fun r' =>
      (r'.adjacencyList.keys = r.adjacencyList.keys ∧
        ∀ name ∈ r.adjacencyList.keys, r'.adjacencyList.outgoing name = r.adjacencyList.outgoing name) ∧
      ((traverseRoots 4 (r.arrange .stored)).toOption.any fun _ =>
        (traverseRoots 4 (r'.arrange .stored)).toOption.any fun _ => true) ∧
      ((r.arrange .stored).adjacencyList.roots = ["camera"] ∧ ((r.arrange .stored).owner "detect").isMutex = true ∧
        (r.arrange .stored).adjacencyList.followed "camera" = ["detect"] ∧
        (r.arrange .stored).adjacencyList.outgoing "camera" = ["detect"] ∧
        (r.arrange .stored).adjacencyList.outgoing "detect" = [])) (by decide)
  obtain ⟨r', constructed', runs⟩ := Loop.exists_ok_of_any runs
  obtain ⟨⟨keys, edges⟩, runs, graph⟩ := of_decide_eq_true runs
  obtain ⟨s, ran, runs'⟩ := Loop.exists_ok_of_any runs
  obtain ⟨s', ran', -⟩ := Loop.exists_ok_of_any runs'
  obtain ⟨roots, mutex, followed, camera, detect⟩ := graph
  have isDetect : ∀ restarted, restarted ∈ nearChain.callbacks.tail → restarted = "detect" :=
    fun restarted inChain => List.mem_singleton.1 inChain
  have visits : ∀ name, (r.arrange .stored).Visits name → name = "camera" ∨ name = "detect" := by
    rintro name ⟨root, isRoot, path⟩
    induction path with
    | refl => exact Or.inl (by simpa [roots] using isRoot)
    | tail _ follows ih =>
        rcases ih with rfl | rfl
        · exact Or.inr (by simpa [followed] using follows)
        · have edge := AdjacencyList.followed_subset_outgoing _ _ follows
          rw [detect] at edge
          cases edge
  refine ⟨r, r', s, s', constructed, constructed', ran, ran',
    (repeatedChain_iff constructed constructed' (List.Perm.refl _) List.mem_cons_self nearChain_long
      nearChain_acyclic nearChain_unwrapped (sameIteration_of_keys keys edges) ran ran').2 ⟨?_, ?_⟩⟩
  · intro before restarted next visited goesOn inChain edge
    obtain rfl := isDetect restarted inChain
    rcases visits before visited with rfl | rfl
    · rw [camera, List.mem_singleton] at edge
      exact edge ▸ ⟨"camera", by simp [roots], .single (by simp [followed])⟩
    · rw [detect] at edge
      cases edge
  · intro before restarted name head visited goesOn inChain path _ reentrant
    obtain rfl := isDetect restarted inChain
    rcases path.cases_head with rfl | ⟨next, ⟨⟨isFirst, -⟩, -⟩, -⟩
    · exact absurd (mutex.symm.trans reentrant) (by decide)
    · rw [detect] at isFirst
      cases isFirst

end CallbackRegistry

end PreemptiveExecutor
