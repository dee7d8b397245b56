/-
# Registry.RootFormula — what the root formula reads

The thread-count recursion divides the longest deadline of a callback by its first
period: for the first callback of every threadgroup it comes to whose stored
indegree is 0.  Most of what this takes is there by construction.  A threadgroup
has a first callback, and a root that hands over has successors, so a chain of at
least two callbacks has given it a deadline and a period (`Weighted`).

What the parser does not check is that the period is not zero.
`rootFormula_reads_iff` says for which graphs that matters.
-/
import PreemptiveExecutor.Parser.Model
import PreemptiveExecutor.Registry.ChainWeights
import PreemptiveExecutor.Registry.Demand

namespace PreemptiveExecutor

open Theory

set_option autoImplicit false

/-! ## Deadlines and periods of the callbacks -/

/-- Deadlines and periods come together, and a callback with successors has some. -/
def AdjacencyList.Weighted (adjacencyList : AdjacencyList) : Prop :=
  ∀ name, ((UnorderedMap.subscript adjacencyList name).deadlines = [] ↔
      (UnorderedMap.subscript adjacencyList name).periods = []) ∧
    (adjacencyList.outgoing name ≠ [] → (UnorderedMap.subscript adjacencyList name).periods ≠ [])

namespace CallbackRegistry

section Weights

variable {adjacencyList after : AdjacencyList} {deadline period : Uint32}

theorem addCallback_weighted (weighted : adjacencyList.Weighted) {previous : Option String}
    (known : ∀ before, previous = some before → (UnorderedMap.subscript adjacencyList before).periods ≠ [])
    (callback : String) :
    (addCallback deadline period previous callback adjacencyList).Weighted ∧
      (UnorderedMap.subscript (addCallback deadline period previous callback adjacencyList)
        callback).periods ≠ [] := by
  refine ⟨fun name => ?_, by rw [(weights_addCallback previous callback callback).2.1, if_pos rfl]; simp⟩
  obtain ⟨deadlines, periods, -⟩ := @weights_addCallback adjacencyList deadline period previous callback name
  obtain ⟨together, some_⟩ := weighted name
  rw [deadlines, periods]
  by_cases same : name = callback
  · simp [same]
  · simp only [if_neg same, List.append_nil]
    refine ⟨together, fun edges => ?_⟩
    obtain ⟨next, member⟩ := List.exists_mem_of_ne_nil _ edges
    rcases outgoing_addCallback.1 member with ⟨isBefore, -⟩ | old
    · exact known name isBefore
    · exact some_ (List.ne_nil_of_mem old)

theorem addCallbacks_weighted (callbacks : List String) :
    ∀ (previous : Option String) {adjacencyList : AdjacencyList}, adjacencyList.Weighted →
      (∀ before, previous = some before → (UnorderedMap.subscript adjacencyList before).periods ≠ []) →
      (addCallbacks deadline period previous callbacks adjacencyList).Weighted := by
  induction callbacks with
  | nil => exact fun _ _ weighted _ => weighted
  | cons callback rest ih =>
      intro previous adjacencyList weighted known
      obtain ⟨weighted', here⟩ := addCallback_weighted weighted known callback
      refine ih (some callback) weighted' fun before isBefore => ?_
      cases isBefore
      exact here

/-- A single callback loses its deadlines and periods, but its successors as well. -/
theorem addChain_weighted (weighted : adjacencyList.Weighted) {chain : UserChain}
    (added : addChain adjacencyList chain = .ok after) : after.Weighted := by
  rcases addChain_ok added with ⟨callback, -, rfl⟩ | ⟨-, rfl⟩
  · intro name
    unfold AdjacencyList.outgoing
    rw [UnorderedMap.subscript_insert]
    by_cases same : name = callback
    · simp [same]
    · rw [if_neg same]
      exact weighted name
  · exact addCallbacks_weighted chain.callbacks none weighted fun _ h => nomatch h

variable {preRegistered : PreRegisteredNames} {weakGroupsToNodes : WeakCallbackGroupsToNodesMap}
  {userChains : List UserChain} {r : CallbackRegistry}

theorem construct_weighted (constructed : construct preRegistered weakGroupsToNodes userChains = .ok r) :
    r.adjacencyList.Weighted :=
  Loop.foldlM_ok AdjacencyList.Weighted userChains (fun _ _ _ _ weighted added => addChain_weighted weighted added)
    (fun _ => ⟨Iff.rfl, fun edges => absurd rfl edges⟩) (construct_chains constructed)

theorem weighted_arranged (weighted : adjacencyList.Weighted) (order : IterationOrder) :
    (order.adjacencyList adjacencyList).Weighted := by
  intro name
  obtain ⟨edges, -, deadlines, periods, -⟩ := subscript_adjacencyList order adjacencyList name
  obtain ⟨together, some_⟩ := weighted name
  rw [← deadlines, ← periods]
  refine ⟨together, fun edges' => some_ fun empty => edges' ?_⟩
  rw [AdjacencyList.outgoing] at empty
  rw [empty] at edges
  exact edges.nil_eq.symm

end Weights

/-! ## Where a segment leads -/

section Forests

variable {r : CallbackRegistry} {forest : Forest}

/-- The traversal goes on in a segment from its head, or from a callback it has come
to from there. -/
theorem outgoing_of_carries {head : String} : ∀ {forest : Forest} {name : String},
    r.carries forest name = .segment head → name = head ∨ r.adjacencyList.outgoing head ≠ []
  | [], name, carried => Or.inl (by cases carried; rfl)
  | call :: older, name, carried => by
      by_cases same : name = call.callbackName
      · subst same
        by_cases entered : r.entered call.caller = true
        · rw [carries_entered entered] at carried
          exact Or.inl (owner_segment carried)
        · cases caller : call.caller with
          | none => rw [caller] at entered; exact absurd rfl entered
          | some before =>
              have continuing : r.adjacencyList.continues before = true := by
                simpa [entered_of_caller caller] using entered
              rw [carries_inherited older caller continuing] at carried
              rcases outgoing_of_carries carried with rfl | edges
              · refine Or.inr fun empty => ?_
                rw [AdjacencyList.continues, empty] at continuing
                cases continuing
              · exact Or.inr edges
      · rw [carries_other same] at carried
        exact outgoing_of_carries carried

/-- The head of a segment that hands over has successors. -/
theorem outgoing_of_handsOver {head : String} {o : Owner} : ∀ {forest : Forest},
    (∀ call ∈ forest, ∀ before, call.caller = some before →
      call.callbackName ∈ r.adjacencyList.followed before) →
    r.HandsOver forest (.segment head) o → r.adjacencyList.outgoing head ≠ []
  | call :: older, followed, edge => by
      obtain ⟨here, later⟩ := List.forall_mem_cons.1 followed
      rcases handsOver_cons edge with old | ⟨before, caller, -, carried, -⟩
      · exact outgoing_of_handsOver later old
      · rcases outgoing_of_carries carried.symm with rfl | edges
        · have next := here before caller
          exact List.ne_nil_of_mem (r.adjacencyList.followed_subset_outgoing before next)
        · exact edges

/-- The first callback of a segment is its head. -/
theorem firstCallback_segment {head callback : String}
    (first : r.firstCallback forest (.segment head) = some callback) : callback = head := by
  unfold firstCallback at first
  obtain ⟨call, found, rfl⟩ := Option.map_eq_some_iff.1 first
  have own : r.opens call = true ∧ r.owner call.callbackName = .segment head := by
    simpa using List.find?_some found
  exact owner_segment own.2

end Forests

/-! ## Evaluations of the root formula -/

/-- A record with all the root formula reads, and a period to divide by. -/
def RootFormulaDefined (info : CallbackAdjacencyInfo) : Prop :=
  info.deadlines ≠ [] ∧ ∃ period ∈ info.periods.head?, period ≠ 0

/-- The thread-count recursion comes to the threadgroup and takes the branch of the
root formula there. -/
def EvaluatesRootFormula (r : CallbackRegistry) (id : Nat) : Prop :=
  r.Counted id ∧ (UnorderedMap.subscript r.threadgroupAdjacencyList id).indegree = 0

/-- The root formula of a threadgroup reads a first callback, a deadline and a period
that are there, and the period is not zero. -/
def RootFormulaReads (r : CallbackRegistry) (id : Nat) : Prop :=
  ∃ first, (UnorderedMap.subscript r.threadgroupCallbackMap id).callbacks.head? = some first ∧
    RootFormulaDefined (UnorderedMap.subscript r.adjacencyList first)

def RootFormulasRead (r : CallbackRegistry) : Prop := ∀ id, r.EvaluatesRootFormula id → r.RootFormulaReads id

/-- The quotient does not fit the 16 bits it is narrowed to. -/
def TooManyThreads (info : CallbackAdjacencyInfo) : Prop :=
  ∃ period ∈ info.periods.head?, ∃ deadline ∈ info.deadlines.max?, 2 ^ 16 ≤ deadline.val / period.val

/-- The periods the root formula divides by are not zero: that of a Reentrant root
which hands over; and, should the 256 owners before a mutex group make its stored
indegree 0, that of the callback which came to it first. -/
structure NonzeroPeriods (r : CallbackRegistry) (forest : Forest) : Prop where
  root : ∀ head o, r.owner head = .segment head → ⟨head, none⟩ ∈ forest →
    r.HandsOver forest (.segment head) o →
    (UnorderedMap.subscript r.adjacencyList head).periods.head? ≠ some 0
  wrapped : ∀ group callback, r.Reached forest (.mutexGroup group) →
    (r.ownersBefore forest (.mutexGroup group)).length % 2 ^ 8 = 0 →
    r.firstCallback forest (.mutexGroup group) = some callback →
    ∃ period ∈ (UnorderedMap.subscript r.adjacencyList callback).periods.head?, period ≠ 0

theorem rootNumThreads_ok {info : CallbackAdjacencyInfo} {numThreads : Uint16}
    (counted : rootNumThreads info = .ok numThreads) : RootFormulaDefined info := by
  unfold rootNumThreads at counted
  split at counted
  · rename_i period deadline isPeriod isDeadline
    split at counted
    · cases counted
    · rename_i nonzero
      refine ⟨fun empty => ?_, period, isPeriod, nonzero⟩
      rw [empty] at isDeadline
      cases isDeadline
  · cases counted

theorem rootNumThreads_error {info : CallbackAdjacencyInfo} {error : Error} (defined : RootFormulaDefined info)
    (failed : rootNumThreads info = .error error) : TooManyThreads info := by
  obtain ⟨deadlines, period, isPeriod, nonzero⟩ := defined
  obtain ⟨deadline, isDeadline⟩ := Option.ne_none_iff_exists'.1 fun h => deadlines (List.max?_eq_none_iff.1 h)
  refine ⟨period, isPeriod, deadline, isDeadline, ?_⟩
  by_contra fits
  unfold rootNumThreads at failed
  rw [Option.mem_def.1 isPeriod, isDeadline] at failed
  dsimp only at failed
  rw [if_neg nonzero, dif_pos (Nat.lt_of_not_le fits)] at failed
  cases failed

section Runs

variable {r : CallbackRegistry} {stack : Nat}

/-- **A run of the thread-count loop that returns has evaluated every root formula.** -/
theorem countThreads_reads
    (mirrored : ∀ id id', id' ∈ (UnorderedMap.subscript r.threadgroupAdjacencyList id).outgoing ↔
      id ∈ (UnorderedMap.subscript r.threadgroupAdjacencyList id').incoming)
    {r' : CallbackRegistry} (ran : r.countThreads stack = .ok r') : r.RootFormulasRead := by
  intro id evaluates
  have balances := (countThreads_balanced mirrored ran).1 id evaluates.1
  have same := countThreads_agrees ran
  unfold Balances balance at balances
  simp only [same.adjacency, evaluates.2, if_true, same.callbacks, same.callbackGraph] at balances
  unfold RootFormulaReads
  cases callbacks : (UnorderedMap.subscript r.threadgroupCallbackMap id).callbacks with
  | nil => rw [callbacks] at balances; cases balances
  | cons first rest =>
      rw [callbacks] at balances
      exact ⟨first, rfl, rootNumThreads_ok balances⟩

/-- **A run that fails although all it reads is there** needed more stack, or a
quotient did not fit. -/
theorem countThreads_fails (reads : r.RootFormulasRead) {thrown : Thrown}
    (failed : r.countThreads stack = .error thrown) :
    thrown.error = .stackOverflow ∨ ∃ id first, r.EvaluatesRootFormula id ∧
      (UnorderedMap.subscript r.threadgroupCallbackMap id).callbacks.head? = some first ∧
      TooManyThreads (UnorderedMap.subscript r.adjacencyList first) := by
  obtain ⟨r₁, id, same, here, visited | rfl⟩ := countThreads_error failed
  · unfold visitThreadgroup at visited
    cases updated : r₁.updateNumThreads id with
    | ok r₂ => rw [updated] at visited; cases visited
    | error error =>
        obtain ⟨zero, -, fails⟩ := updateNumThreads_fails updated
        rw [same.adjacency] at zero
        obtain ⟨first, isFirst, defined⟩ := reads id ⟨here, zero⟩
        have failedThere := fails first ((same.callbacks id).symm ▸ isFirst)
        rw [same.callbackGraph] at failedThere
        exact Or.inr ⟨id, first, ⟨here, zero⟩, isFirst, rootNumThreads_error defined failedThere⟩
  · exact Or.inl rfl

end Runs

/-! ## Evaluations and owners -/

section Owners

variable {r : CallbackRegistry} {forest : Forest} {s : TraversalState} {order : IterationOrder}

/-- The root formula is evaluated for the owners whose number of predecessors is
stored as 0. -/
theorem evaluates_iff (refines : TraversalState.Refines r s forest [] []) (id : Nat) :
    (prioritized order s).EvaluatesRootFormula id ↔
      ∃ o, r.Reached forest o ∧ (r.ownersBefore forest o).length % 2 ^ 8 = 0 ∧ s.idOf o = id := by
  have sound := refines.sound.1
  constructor
  · rintro ⟨counted, zero⟩
    have present := counted.present (prioritized_sound sound order)
    obtain ⟨o, opened, rfl⟩ := refines.names.onto id
      (((assignFixedPriorities_sameButPriority sound).mem_iff id).2 present)
    exact ⟨o, (counted_iff sound refines.grown refines.names refines.links opened).1 counted,
      (indegree_prioritized order refines.grown refines.names refines.links opened).1 zero, rfl⟩
  · rintro ⟨o, reached, zero, rfl⟩
    have opened := reached.opened refines.grown
    exact ⟨(counted_iff sound refines.grown refines.names refines.links opened).2 reached,
      (indegree_prioritized order refines.grown refines.names refines.links opened).2 zero⟩

/-- What it reads there is the record of the callback that came to the owner first. -/
theorem reads_iff (refines : TraversalState.Refines r s forest [] []) {o : Owner} (opened : r.Opened forest o) :
    (prioritized order s).RootFormulaReads (s.idOf o) ↔
      ∃ first, r.firstCallback forest o = some first ∧
        RootFormulaDefined (UnorderedMap.subscript r.adjacencyList first) := by
  have record := record_prioritized order refines.sound.1 refines.names opened
  unfold RootFormulaReads
  rw [record.first]
  change (∃ first, _ ∧ RootFormulaDefined (UnorderedMap.subscript s.adjacencyList first)) ↔ _
  rw [refines.names.graph]

/-- A segment without an owner before it is that of a root which hands over. -/
theorem reached_segment_iff (grown : r.Grown forest) {head : String} :
    r.Reached forest (.segment head) ∧ (r.ownersBefore forest (.segment head)).length % 2 ^ 8 = 0 ↔
      r.owner head = .segment head ∧ ⟨head, none⟩ ∈ forest ∧ ∃ o, r.HandsOver forest (.segment head) o := by
  constructor
  · rintro ⟨reached, zero⟩
    -- a segment has one predecessor at most, so none
    have isFirst : ∀ o, ¬ r.HandsOver forest o (.segment head) := by
      intro o edge
      have member := mem_ownersBefore.2 edge
      have only : r.ownersBefore forest (.segment head) ⊆ [o] := fun o' member' =>
        List.mem_singleton.2 (segment_predecessor grown.nodup (mem_ownersBefore.1 member') edge)
      have short := ((ownersBefore_nodup forest (.segment head)).subperm only).length_le
      have long := List.length_pos_of_mem member
      rw [List.length_singleton] at short
      omega
    obtain ⟨root, first, own, isRoot, handed, path⟩ := reached
    cases path with
    | refl => exact ⟨own, isRoot, first, handed⟩
    | tail _ edge => exact absurd edge (isFirst _)
  · rintro ⟨own, isRoot, first, handed⟩
    have none_ : r.ownersBefore forest (.segment head) = [] :=
      List.eq_nil_iff_forall_not_mem.2 fun o member => grown.root isRoot o (mem_ownersBefore.1 member)
    exact ⟨⟨head, first, own, isRoot, handed, .refl⟩, by rw [none_]; rfl⟩

/-- **Every root formula reads what is there exactly if the periods it divides by are
not zero.** -/
theorem reads_iff_nonzeroPeriods (isForest : r.adjacencyList.DepthFirstForest forest) (grown : r.Grown forest)
    (weighted : r.adjacencyList.Weighted) :
    (∀ o, r.Reached forest o → (r.ownersBefore forest o).length % 2 ^ 8 = 0 →
      ∃ first, r.firstCallback forest o = some first ∧
        RootFormulaDefined (UnorderedMap.subscript r.adjacencyList first)) ↔
      r.NonzeroPeriods forest := by
  constructor
  · intro reads
    constructor
    · intro head o own isRoot handed zero
      obtain ⟨reached, none_⟩ := (reached_segment_iff grown).2 ⟨own, isRoot, o, handed⟩
      obtain ⟨first, isFirst, -, period, isPeriod, nonzero⟩ := reads _ reached none_
      obtain rfl := firstCallback_segment isFirst
      rw [zero] at isPeriod
      exact nonzero (Option.some.inj isPeriod).symm
    · intro group callback reached zero isFirst
      obtain ⟨first, isFirst', -, period⟩ := reads _ reached zero
      rw [isFirst] at isFirst'
      cases isFirst'
      exact period
  · intro nonzero o reached zero
    obtain ⟨callback, isFirst⟩ := firstCallback_some (reached.opened grown)
    refine ⟨callback, isFirst, ?_⟩
    -- in both cases a period is there, and with it a deadline
    have period : ∃ period ∈ (UnorderedMap.subscript r.adjacencyList callback).periods.head?, period ≠ 0 := by
      cases o with
      | mutexGroup group => exact nonzero.wrapped group callback reached zero isFirst
      | segment head =>
          obtain rfl := firstCallback_segment isFirst
          obtain ⟨own, isRoot, o, handed⟩ := (reached_segment_iff grown).1 ⟨reached, zero⟩
          have edges := outgoing_of_handsOver isForest.called.follows handed
          obtain ⟨period, rest, isCons⟩ := List.exists_cons_of_ne_nil ((weighted callback).2 edges)
          refine ⟨period, by rw [isCons]; rfl, fun isZero => nonzero.root callback o own isRoot handed ?_⟩
          rw [isCons, isZero]
          rfl
    refine ⟨fun none_ => ?_, period⟩
    obtain ⟨period, isPeriod, -⟩ := period
    rw [(weighted callback).1.1 none_] at isPeriod
    cases isPeriod

end Owners

/-! ## Accepted documents -/

section Accepted

variable {conversions : YamlConversions} {document : YamlNode} {after : ChainYamlParser}
  {userChains : List UserChain}

/-- **An accepted document can be allocated without a bad read in the thread-count
loop exactly if the periods it divides by are not zero.**  A run of the loop that
returns has made no bad read; and where there is none to be made, a run fails for
want of stack, or because a quotient does not fit. -/
theorem accepted_rootFormulas_iff
    (accepted : (ChainYamlParser.fresh document).parse conversions = (.ok true, after))
    (lists : after.Lists userChains) (preRegistered : PreRegisteredNames)
    (weakGroupsToNodes : WeakCallbackGroupsToNodesMap) :
    ∃ r, construct preRegistered weakGroupsToNodes userChains = .ok r ∧
      ∀ (order : IterationOrder) (stack : Nat) (s : TraversalState),
        traverseRoots stack (r.arrange order) = .ok s →
        ((prioritized order s).RootFormulasRead ↔
          ∀ forest, (r.arrange order).adjacencyList.DepthFirstForest forest →
            (r.arrange order).NonzeroPeriods forest) ∧
        (∀ stack' counted, countThreads stack' (prioritized order s) = .ok counted →
          (prioritized order s).RootFormulasRead) ∧
        ((prioritized order s).RootFormulasRead → ∀ stack' thrown,
          countThreads stack' (prioritized order s) = .error thrown →
          thrown.error = .stackOverflow ∨ ∃ id first, (prioritized order s).EvaluatesRootFormula id ∧
            (UnorderedMap.subscript (prioritized order s).threadgroupCallbackMap id).callbacks.head? =
              some first ∧
            TooManyThreads (UnorderedMap.subscript (prioritized order s).adjacencyList first)) := by
  obtain ⟨r, constructed⟩ := construct_returns preRegistered weakGroupsToNodes fun chain member =>
    (lists.wellFormed accepted chain member).callbacks
  refine ⟨r, constructed, fun order stack s ran => ?_⟩
  obtain ⟨forest, isForest, refines⟩ := traverseRoots_refines (construct_fresh constructed order) ran
  have sound := prioritized_sound refines.sound.1 order
  have weighted : (r.arrange order).adjacencyList.Weighted :=
    weighted_arranged (construct_weighted constructed) order
  refine ⟨?_, fun stack' counted counts => ?_, fun reads stack' thrown failed => ?_⟩
  · have byOwner : (prioritized order s).RootFormulasRead ↔ ∀ o, (r.arrange order).Reached forest o →
        ((r.arrange order).ownersBefore forest o).length % 2 ^ 8 = 0 →
          ∃ first, (r.arrange order).firstCallback forest o = some first ∧
            RootFormulaDefined (UnorderedMap.subscript (r.arrange order).adjacencyList first) := by
      constructor
      · intro reads o reached zero
        exact (reads_iff refines (reached.opened refines.grown)).1
          (reads _ ((evaluates_iff refines _).2 ⟨o, reached, zero, rfl⟩))
      · intro reads id evaluates
        obtain ⟨o, reached, zero, rfl⟩ := (evaluates_iff refines id).1 evaluates
        exact (reads_iff refines (reached.opened refines.grown)).2 (reads o reached zero)
    rw [byOwner, reads_iff_nonzeroPeriods isForest refines.grown weighted, isForest.forall_iff]
  · exact countThreads_reads (mirrored_prioritized order refines.links) counts
  · exact countThreads_fails reads failed

end Accepted

/-! ### A document with a period of zero -/

/-- Two chains from `camera` to `detect`. -/
def cameraDocument (period : String) : YamlNode :=
  let chain : YamlNode := .map [(.scalar "callbacks", .sequence [.scalar "camera", .scalar "detect"]),
    (.scalar "deadline", .scalar "10"), (.scalar "period", .scalar period)]
  .map [(.scalar "chains", .map [(.scalar "near", chain), (.scalar "far", chain)])]

/-- The conversions of the scalars of that document. -/
def cameraConversions : YamlConversions where
  asString
    | .scalar value => .ok value
    | _ => .error "bad conversion"
  asUint32
    | .scalar "0" => .ok 0
    | .scalar "5" => .ok 5
    | .scalar "10" => .ok 10
    | .scalar "20" => .ok 20
    | _ => .error "bad conversion"

/-- The chains of an accepted document, in the order in which they are stored. -/
def acceptedChains (conversions : YamlConversions) (document : YamlNode) : Option (List UserChain) :=
  match (ChainYamlParser.fresh document).parse conversions with
  | (.ok true, after) => some (after.userChains.entries.map Sigma.snd)
  | _ => none

theorem acceptedChains_lists {conversions : YamlConversions} {document : YamlNode} {userChains : List UserChain}
    (chains : acceptedChains conversions document = some userChains) :
    ∃ after, (ChainYamlParser.fresh document).parse conversions = (.ok true, after) ∧
      after.Lists userChains := by
  unfold acceptedChains at chains
  split at chains
  · rename_i after parsed
    cases chains
    exact ⟨after, parsed, List.Perm.refl _⟩
  · cases chains

/-- The chains of the document with this period. -/
def nearFarChains (period : Uint32) : List UserChain :=
  [{ chainName := "far", callbacks := ["camera", "detect"], deadline := 10, period },
    { chainName := "near", callbacks := ["camera", "detect"], deadline := 10, period }]

def nearFarNames : PreRegisteredNames := subscriptionNames ["camera", "detect"]

def nearFarGroups : WeakCallbackGroupsToNodesMap :=
  [⟨some (subscriptionGroup 1 .reentrant [10, 11]), some 100⟩]

/-- **A period of zero is accepted and divided by.** -/
theorem accepted_zeroPeriod :
    ∃ after r s, (ChainYamlParser.fresh (cameraDocument "0")).parse cameraConversions = (.ok true, after) ∧
      after.Lists (nearFarChains 0) ∧ construct nearFarNames nearFarGroups (nearFarChains 0) = .ok r ∧
      (∀ name, name ∈ r.callbackMap ↔ Named (nearFarChains 0) name) ∧
      traverseRoots 4 (r.arrange .stored) = .ok s ∧ ¬ (prioritized .stored s).RootFormulasRead ∧
      ∃ registry, countThreads 4 (prioritized .stored s) = .error ⟨.undefinedBehaviour, registry⟩ := by
  obtain ⟨after, accepted, lists⟩ := acceptedChains_lists
    (by decide : acceptedChains cameraConversions (cameraDocument "0") = some (nearFarChains 0))
  obtain ⟨r, constructed, runs⟩ := Loop.exists_ok_of_any
    (x := construct nearFarNames nearFarGroups (nearFarChains 0))
    (p := fun r => r.callbackMap.keys = ["detect", "camera"] ∧
      (traverseRoots 4 (r.arrange .stored)).toOption.any fun s =>
        (1 ∈ (prioritized .stored s).threadgroupRoots ∧
          (UnorderedMap.subscript (prioritized .stored s).threadgroupAdjacencyList 1).indegree = 0 ∧
          (UnorderedMap.subscript (prioritized .stored s).threadgroupCallbackMap 1).callbacks.head? =
            some "camera" ∧
          (UnorderedMap.subscript (prioritized .stored s).adjacencyList "camera").periods.head? = some 0) ∧
        (Loop.thrown (countThreads 4 (prioritized .stored s))).any fun thrown =>
          thrown.error = .undefinedBehaviour) (by decide)
  obtain ⟨keys, runs⟩ := of_decide_eq_true runs
  obtain ⟨s, ran, runs⟩ := Loop.exists_ok_of_any runs
  obtain ⟨⟨isRoot, zero, isFirst, isZero⟩, throws⟩ := of_decide_eq_true runs
  refine ⟨after, r, s, accepted, lists, constructed,
    mem_callbackMap_of_keys keys fun name => by simp [Named, nearFarChains]; tauto, ran, fun reads => ?_, ?_⟩
  · obtain ⟨first, isFirst', -, period, isPeriod, nonzero⟩ := reads 1 ⟨⟨1, isRoot, .refl⟩, zero⟩
    rw [isFirst] at isFirst'
    cases isFirst'
    rw [isZero] at isPeriod
    exact nonzero (Option.some.inj isPeriod).symm
  · obtain ⟨⟨error, registry⟩, threw, same⟩ := Loop.exists_error_of_any throws
    obtain rfl := of_decide_eq_true same
    exact ⟨registry, threw⟩

/-- The graph of the two chains with a period of 5: no callback is in a mutex group,
and both have the weights of the chains. -/
theorem nearFar_forest {r : CallbackRegistry} (constructed : construct nearFarNames nearFarGroups
    (nearFarChains 5) = .ok r) {forest : Forest} (isForest : (r.arrange .stored).adjacencyList.DepthFirstForest
      forest) : ∀ call ∈ forest, r.owner call.callbackName = .segment call.callbackName ∧
        (UnorderedMap.subscript r.adjacencyList call.callbackName).periods.head? = some 5 ∧
        (UnorderedMap.subscript r.adjacencyList call.callbackName).deadlines.max? = some 10 := by
  obtain ⟨r', constructed', runs⟩ := Loop.exists_ok_of_any
    (x := construct nearFarNames nearFarGroups (nearFarChains 5))
    (p := fun r => ((r.arrange .stored).adjacencyList.searchForest 4).toOption.any fun forest =>
        ∀ call ∈ forest, r.owner call.callbackName = .segment call.callbackName ∧
          (UnorderedMap.subscript r.adjacencyList call.callbackName).periods.head? = some 5 ∧
          (UnorderedMap.subscript r.adjacencyList call.callbackName).deadlines.max? = some 10) (by decide)
  obtain rfl := Except.ok.inj (constructed.symm.trans constructed')
  exact of_decide_eq_true (isForest.of_search runs)

/-- Its traversal comes to no mutex group. -/
theorem not_reached_mutexGroup {r : CallbackRegistry} {forest : Forest}
    (segments : ∀ call ∈ forest, r.owner call.callbackName = .segment call.callbackName) {group : Ptr} :
    ¬ r.Reached forest (.mutexGroup group) := by
  rintro ⟨root, first, own, isRoot, handed, path⟩
  cases path with
  | tail _ edge =>
      obtain ⟨call, member, -, -, -, isGroup⟩ := handsOver_target edge
      cases (segments call member).symm.trans isGroup

/-- With a period of 5 the same document is allocated without a bad read. -/
theorem accepted_nonzeroPeriod :
    ∃ r s, construct nearFarNames nearFarGroups (nearFarChains 5) = .ok r ∧
      traverseRoots 4 (r.arrange .stored) = .ok s ∧ (prioritized .stored s).RootFormulasRead := by
  obtain ⟨after, accepted, lists⟩ := acceptedChains_lists
    (by decide : acceptedChains cameraConversions (cameraDocument "5") = some (nearFarChains 5))
  obtain ⟨r, constructed, allocates⟩ := accepted_rootFormulas_iff accepted lists nearFarNames nearFarGroups
  obtain ⟨r', constructed', runs⟩ := Loop.exists_ok_of_any
    (x := construct nearFarNames nearFarGroups (nearFarChains 5))
    (p := fun r => (traverseRoots 4 (r.arrange .stored)).toOption.any fun _ => true) (by decide)
  obtain rfl := Except.ok.inj (constructed.symm.trans constructed')
  obtain ⟨s, ran, -⟩ := Loop.exists_ok_of_any runs
  refine ⟨r, s, constructed, ran, ((allocates .stored 4 s ran).1).2 fun forest isForest => ?_⟩
  have graph := nearFar_forest constructed isForest
  constructor
  · intro head o own isRoot handed zero
    exact absurd ((graph _ isRoot).2.1.symm.trans zero) (by decide)
  · intro group callback reached
    exact absurd reached (not_reached_mutexGroup fun call member => (graph call member).1)

end CallbackRegistry

end PreemptiveExecutor
