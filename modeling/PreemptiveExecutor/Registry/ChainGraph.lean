/-
# Registry.ChainGraph — the adjacency list is determined by the chains

A chain of at least two callbacks extends the records of its callbacks and leaves the
others alone.  A chain of one callback writes an empty record, whatever the one before
was.  So the record of a callback is that of `keptChains`, the chains since it last was a
chain of its own (`construct_record`): each of its fields is read off from them, up to the
order of the chains.

* Chains of at least two callbacks give one graph in every order (`construct_isChainGraph`).
* A callback that is a chain of its own loses what came before, so the order of the chains
  matters as soon as it is in another one (`chainOrder_irrelevant_iff`).
* The indegree is an 8-bit count, and a callback that comes after others in 256 places
  looks like a root (`root_iff_nonFirst_iff`).
-/
import PreemptiveExecutor.Registry.RepeatedChain
import PreemptiveExecutor.Registry.ChainWeights

namespace PreemptiveExecutor

open Theory

set_option autoImplicit false

/-- The chains, each once for every place the callback has in it. -/
def occurrences (userChains : List UserChain) (callbackName : String) : List UserChain :=
  userChains.flatMap fun chain => List.replicate (chain.callbacks.count callbackName) chain

/-- The callback comes in some chain after another one. -/
def NonFirst (userChains : List UserChain) (callbackName : String) : Prop :=
  ∃ chain ∈ userChains, callbackName ∈ chain.callbacks.tail

theorem mem_occurrences {userChains : List UserChain} {name : String} {chain : UserChain} :
    chain ∈ occurrences userChains name ↔ chain ∈ userChains ∧ name ∈ chain.callbacks := by
  unfold occurrences
  simp only [List.mem_flatMap, List.mem_replicate, ← Nat.pos_iff_ne_zero, List.count_pos_iff]
  constructor
  · rintro ⟨_, member, inChain, rfl⟩
    exact ⟨member, inChain⟩
  · rintro ⟨member, inChain⟩
    exact ⟨chain, member, inChain, rfl⟩

theorem occurrences_append (chains chains' : List UserChain) (name : String) :
    occurrences (chains ++ chains') name = occurrences chains name ++ occurrences chains' name :=
  List.flatMap_append

theorem places_append (chains chains' : List UserChain) (name : String) :
    places (chains ++ chains') name = places chains name + places chains' name := by
  rw [places, List.flatMap_append, List.count_append, places, places]

theorem chainStep_append {chains chains' : List UserChain} {a b : String} :
    ChainStep (chains ++ chains') a b ↔ ChainStep chains a b ∨ ChainStep chains' a b := by
  simp only [ChainStep, List.mem_append, or_and_right, exists_or]

theorem chainStep_singleton {chain : UserChain} {a b : String} :
    ChainStep [chain] a b ↔ (a, b) ∈ steps chain.callbacks := by
  unfold ChainStep
  simp only [List.mem_singleton, exists_eq_left]

/-- A callback comes after another one in some place exactly if it is nonfirst. -/
theorem places_pos_iff {userChains : List UserChain} {name : String} :
    0 < places userChains name ↔ NonFirst userChains name := by
  rw [places, List.count_pos_iff, List.mem_flatMap]
  rfl

theorem nonFirst_iff_step {userChains : List UserChain} {name : String} :
    NonFirst userChains name ↔ ∃ before, ChainStep userChains before name := by
  constructor
  · rintro ⟨chain, member, inTail⟩
    rw [← map_snd_steps, List.mem_map] at inTail
    obtain ⟨⟨before, _⟩, step, rfl⟩ := inTail
    exact ⟨before, chain, member, step⟩
  · rintro ⟨before, chain, member, step⟩
    exact ⟨chain, member, (List.of_mem_zip step).2⟩

theorem Named.perm {userChains userChains' : List UserChain} (perm : userChains.Perm userChains')
    {name : String} : Named userChains name ↔ Named userChains' name := by
  simp only [Named, perm.mem_iff]

/-! ## The record of a callback -/

/-- What the chains leave in the record of a callback, in whatever order they come. -/
structure RecordOf (userChains : List UserChain) (name : String) (info : CallbackAdjacencyInfo) : Prop where
  outgoing : ∀ next, next ∈ info.outgoing ↔ ChainStep userChains name next
  nodup : info.outgoing.Nodup
  indegree : info.indegree.val = places userChains name % 2 ^ 8
  stores : ∃ stored, stored.Perm (occurrences userChains name) ∧ Stores info stored

theorem recordOf_empty (name : String) : RecordOf [] name {} := by
  refine ⟨fun next => ?_, List.nodup_nil, rfl, [], List.Perm.refl _, stores_empty⟩
  simp [ChainStep]

theorem RecordOf.perm {chains chains' : List UserChain} {name : String} {info : CallbackAdjacencyInfo}
    (record : RecordOf chains name info) (perm : chains.Perm chains') : RecordOf chains' name info := by
  refine ⟨fun next => ?_, record.nodup, ?_, ?_⟩
  · rw [record.outgoing]
    simp only [ChainStep, perm.mem_iff]
  · rw [record.indegree, places, places, (perm.flatMap_right _).count_eq]
  · obtain ⟨stored, isPerm, stores⟩ := record.stores
    exact ⟨stored, isPerm.trans (perm.flatMap_right _), stores⟩

/-- A chain the callback is not in. -/
theorem RecordOf.skip {chains : List UserChain} {name : String} {info : CallbackAdjacencyInfo}
    (record : RecordOf chains name info) {chain : UserChain} (foreign : name ∉ chain.callbacks) :
    RecordOf (chains ++ [chain]) name info := by
  refine ⟨fun next => ?_, record.nodup, ?_, ?_⟩
  · have noStep : ¬ ChainStep [chain] name next := by
      rw [chainStep_singleton]
      exact fun step => foreign (List.of_mem_zip step).1
    rw [record.outgoing, chainStep_append, or_iff_left noStep]
  · have noPlace : places [chain] name = 0 := by
      rw [← Nat.le_zero, ← not_lt, places_pos_iff]
      rintro ⟨_, member, inTail⟩
      rw [List.mem_singleton] at member
      exact foreign (List.mem_of_mem_tail (member ▸ inTail))
    rw [record.indegree, places_append, noPlace, Nat.add_zero]
  · have none_ : occurrences [chain] name = [] := by
      refine List.eq_nil_iff_forall_not_mem.2 fun other member => ?_
      obtain ⟨same, inChain⟩ := mem_occurrences.1 member
      rw [List.mem_singleton] at same
      exact foreign (same ▸ inChain)
    rw [occurrences_append, none_, List.append_nil]
    exact record.stores

/-- Nothing is left in the record of a callback that is in none of the chains. -/
theorem RecordOf.eq_empty {chains : List UserChain} {name : String} {info : CallbackAdjacencyInfo}
    (record : RecordOf chains name info) (foreign : ∀ chain ∈ chains, name ∉ chain.callbacks) : info = {} := by
  have noStep : ∀ next, ¬ ChainStep chains name next := by
    rintro next ⟨chain, member, step⟩
    exact foreign chain member (List.of_mem_zip step).1
  have noPlace : places chains name = 0 := by
    rw [← Nat.le_zero, ← not_lt, places_pos_iff]
    rintro ⟨chain, member, inTail⟩
    exact foreign chain member (List.mem_of_mem_tail inTail)
  obtain ⟨stored, isPerm, stores⟩ := record.stores
  have none_ : stored = [] := by
    refine List.eq_nil_iff_forall_not_mem.2 fun chain member => ?_
    obtain ⟨inChains, inChain⟩ := mem_occurrences.1 (isPerm.mem_iff.1 member)
    exact foreign chain inChains inChain
  subst none_
  have noEdges : info.outgoing = [] :=
    List.eq_nil_iff_forall_not_mem.2 fun next edge => noStep next ((record.outgoing next).1 edge)
  have zero : info.indegree = 0 := by
    apply Fin.ext
    rw [record.indegree, noPlace]
    rfl
  have unbounded : info.minDeadline = Fin.last _ :=
    Fin.last_le_iff.1 ((stores.minDeadline _).2 fun _ member => by cases member)
  have noDeadlines : info.deadlines = [] := stores.deadlines
  have noPeriods : info.periods = [] := stores.periods
  cases info
  simp_all

/-- The `min_deadline` of a callback in some chain is the smallest of its deadlines. -/
theorem RecordOf.isLeast {chains : List UserChain} {name : String} {info : CallbackAdjacencyInfo}
    (record : RecordOf chains name info) (named : Named chains name) :
    IsLeast {deadline | deadline ∈ info.deadlines} info.minDeadline := by
  obtain ⟨stored, isPerm, stores⟩ := record.stores
  have below : ∀ d, d ≤ info.minDeadline ↔ ∀ deadline ∈ info.deadlines, d ≤ deadline := by
    intro d
    rw [stores.minDeadline, stores.deadlines, List.forall_mem_map]
  obtain ⟨chain, member, inChain⟩ := named
  have inStored : chain ∈ stored := isPerm.mem_iff.2 (mem_occurrences.2 ⟨member, inChain⟩)
  obtain ⟨least, isMember, isLeast⟩ := WellFounded.has_min wellFounded_lt
    {deadline | deadline ∈ info.deadlines}
    ⟨chain.deadline, stores.deadlines ▸ List.mem_map_of_mem inStored⟩
  have lower : least ≤ info.minDeadline :=
    (below least).2 fun deadline inDeadlines => not_lt.1 (isLeast deadline inDeadlines)
  have same : info.minDeadline = least := le_antisymm ((below _).1 le_rfl least isMember) lower
  exact ⟨same ▸ isMember, (below _).1 le_rfl⟩

/-- Two records that are the same up to the order of what they list. -/
structure SameRecord (a b : CallbackAdjacencyInfo) : Prop where
  outgoing : ∀ next, next ∈ a.outgoing ↔ next ∈ b.outgoing
  indegree : a.indegree = b.indegree
  deadlines : a.deadlines.Perm b.deadlines
  periods : a.periods.Perm b.periods
  minDeadline : a.minDeadline = b.minDeadline

/-- The records of one callback after the same chains. -/
theorem RecordOf.same {chains : List UserChain} {name : String} {info info' : CallbackAdjacencyInfo}
    (record : RecordOf chains name info) (record' : RecordOf chains name info') : SameRecord info info' := by
  obtain ⟨stored, isPerm, stores⟩ := record.stores
  obtain ⟨stored', isPerm', stores'⟩ := record'.stores
  have perm : stored.Perm stored' := isPerm.trans isPerm'.symm
  refine ⟨fun next => by rw [record.outgoing, record'.outgoing], ?_, ?_, ?_, ?_⟩
  · exact Fin.ext (record.indegree.trans record'.indegree.symm)
  · rw [stores.deadlines, stores'.deadlines]
    exact perm.map _
  · rw [stores.periods, stores'.periods]
    exact perm.map _
  · have below : ∀ d, d ≤ info.minDeadline ↔ d ≤ info'.minDeadline := by
      intro d
      rw [stores.minDeadline, stores'.minDeadline]
      simp only [perm.mem_iff]
    exact le_antisymm ((below _).1 le_rfl) ((below _).2 le_rfl)

theorem SameRecord.refl (info : CallbackAdjacencyInfo) : SameRecord info info :=
  ⟨fun _ => Iff.rfl, rfl, List.Perm.refl _, List.Perm.refl _, rfl⟩

/-! ## The chains a record goes back to -/

/-- One more chain: a chain of its own makes the callback start afresh. -/
def keepChain (callbackName : String) (kept : List UserChain) (chain : UserChain) : List UserChain :=
  if chain.callbacks = [callbackName] then [] else kept ++ [chain]

/-- The chains since the callback last was a chain of its own. -/
def keptChains (userChains : List UserChain) (callbackName : String) : List UserChain :=
  userChains.foldl (keepChain callbackName) []

theorem foldl_keepChain {name : String} {chains : List UserChain}
    (noneAlone : ∀ chain ∈ chains, chain.callbacks ≠ [name]) :
    ∀ kept, chains.foldl (keepChain name) kept = kept ++ chains := by
  induction chains with
  | nil => intro kept; rw [List.foldl_nil, List.append_nil]
  | cons chain chains ih =>
      obtain ⟨here, later⟩ := List.forall_mem_cons.1 noneAlone
      intro kept
      rw [List.foldl_cons, keepChain, if_neg here, ih later, List.append_assoc, List.singleton_append]

theorem keptChains_eq {name : String} {chains : List UserChain}
    (noneAlone : ∀ chain ∈ chains, chain.callbacks ≠ [name]) : keptChains chains name = chains :=
  (foldl_keepChain noneAlone []).trans (List.nil_append _)

theorem keptChains_concat_alone {name : String} (chains : List UserChain) {chain : UserChain}
    (alone : chain.callbacks = [name]) : keptChains (chains ++ [chain]) name = [] := by
  rw [keptChains, List.foldl_concat, keepChain, if_pos alone]

theorem keptChains_subset {name : String} (chains : List UserChain) {chain : UserChain}
    (kept : chain ∈ keptChains chains name) : chain ∈ chains ∧ chain.callbacks ≠ [name] := by
  induction chains using List.reverseRecOn with
  | nil => cases kept
  | append_singleton chains last ih =>
      rw [keptChains, List.foldl_concat, keepChain] at kept
      split at kept
      · cases kept
      · rename_i other
        rcases List.mem_append.1 kept with before | here
        · exact ⟨List.mem_append_left _ (ih before).1, (ih before).2⟩
        · obtain rfl := List.mem_singleton.1 here
          exact ⟨List.mem_append_right _ here, other⟩

namespace CallbackRegistry

section Records

variable {deadline period : Uint32} {adjacencyList after : AdjacencyList} {name : String}

theorem nodup_addCallback (nodup : (adjacencyList.outgoing name).Nodup) (previous : Option String)
    (callback : String) :
    ((addCallback deadline period previous callback adjacencyList).outgoing name).Nodup := by
  unfold addCallback
  rw [outgoing_update (by intro _; rfl)]
  cases previous with
  | none => exact nodup
  | some before =>
      simp only
      rw [outgoing_update (by intro _; rfl), AdjacencyList.outgoing, UnorderedMap.subscript_update]
      split
      · rename_i same
        subst same
        exact nodup.insert
      · exact nodup

theorem nodup_addCallbacks (callbacks : List String) :
    ∀ (previous : Option String) {adjacencyList : AdjacencyList}, (adjacencyList.outgoing name).Nodup →
      ((addCallbacks deadline period previous callbacks adjacencyList).outgoing name).Nodup := by
  induction callbacks with
  | nil => exact fun _ _ nodup => nodup
  | cons callback rest ih =>
      exact fun previous _ nodup => ih (some callback) (nodup_addCallback nodup previous callback)

/-- **One chain more in the record of a callback.** -/
theorem addChain_record {chain : UserChain} {kept : List UserChain}
    (record : RecordOf kept name (UnorderedMap.subscript adjacencyList name))
    (added : addChain adjacencyList chain = .ok after) :
    RecordOf (keepChain name kept chain) name (UnorderedMap.subscript after name) := by
  unfold keepChain
  rcases addChain_ok added with ⟨callback, one, rfl⟩ | ⟨long, rfl⟩
  · rw [UnorderedMap.subscript_insert, one]
    by_cases same : name = callback
    · subst same
      rw [if_pos rfl, if_pos rfl]
      exact recordOf_empty name
    · rw [if_neg same, if_neg fun other => same (List.singleton_inj.1 other).symm]
      exact record.skip (by rw [one, List.mem_singleton]; exact same)
  · have notAlone : chain.callbacks ≠ [name] := by
      intro alone
      rw [alone, List.length_singleton] at long
      omega
    rw [if_neg notAlone]
    refine ⟨fun next => ?_, nodup_addCallbacks _ none record.nodup, ?_, ?_⟩
    · have edges := outgoing_addCallbacks chain.deadline chain.period name next chain.callbacks none adjacencyList
      rw [chainStep_append, chainStep_singleton, or_comm, ← record.outgoing]
      exact edges
    · have counted := @indegree_addCallbacks chain.deadline chain.period name chain.callbacks none adjacencyList
      have before : (adjacencyList.indegree name).val = places kept name % 2 ^ 8 := record.indegree
      have here : places [chain] name = chain.callbacks.tail.count name := by
        rw [places, List.flatMap_singleton]
      rw [before] at counted
      rw [places_append, here, ← Nat.mod_add_mod]
      exact counted
    · obtain ⟨stored, isPerm, stores⟩ := record.stores
      have here : occurrences [chain] name = List.replicate (chain.callbacks.count name) chain := by
        rw [occurrences, List.flatMap_singleton]
      refine ⟨_, ?_, addCallbacks_stores chain chain.callbacks none stores⟩
      rw [occurrences_append, here]
      exact isPerm.append_right _

variable {preRegistered : PreRegisteredNames} {weakGroupsToNodes : WeakCallbackGroupsToNodesMap}
  {userChains : List UserChain} {r : CallbackRegistry}

/-- **The record of a callback is that of the chains since it last was a chain of its
own.** -/
theorem construct_record (constructed : construct preRegistered weakGroupsToNodes userChains = .ok r)
    (name : String) : RecordOf (keptChains userChains name) name (UnorderedMap.subscript r.adjacencyList name) := by
  have start : RecordOf [] name (UnorderedMap.subscript (∅ : AdjacencyList) name) := recordOf_empty name
  exact Loop.foldlM_follows
    (fun adjacencyList kept => RecordOf kept name (UnorderedMap.subscript adjacencyList name)) (keepChain name)
    userChains (fun _ _ _ _ _ record added => addChain_record record added) start (construct_chains constructed)

end Records

variable {preRegistered : PreRegisteredNames} {weakGroupsToNodes : WeakCallbackGroupsToNodesMap}
  {userChains processed : List UserChain} {r : CallbackRegistry}

/-! ## Chains of at least two callbacks -/

/-- The adjacency list is the graph of the chains, with their weights. -/
structure IsChainGraph (adjacencyList : AdjacencyList) (userChains : List UserChain) : Prop where
  keys : ∀ name, name ∈ adjacencyList ↔ Named userChains name
  outgoing : ∀ name next, next ∈ adjacencyList.outgoing name ↔ ChainStep userChains name next
  nodup : ∀ name, (adjacencyList.outgoing name).Nodup
  indegree : ∀ name, (adjacencyList.indegree name).val = places userChains name % 2 ^ 8
  weights : ∀ name, ∃ stored : List UserChain, stored.Perm (occurrences userChains name) ∧
    (UnorderedMap.subscript adjacencyList name).deadlines = stored.map UserChain.deadline ∧
    (UnorderedMap.subscript adjacencyList name).periods = stored.map UserChain.period
  minDeadline : ∀ name ∈ adjacencyList,
    IsLeast {deadline | deadline ∈ (UnorderedMap.subscript adjacencyList name).deadlines}
      (adjacencyList.minDeadline name)

theorem nonempty_of_long (long : ∀ chain ∈ userChains, 2 ≤ chain.callbacks.length) :
    ∀ chain ∈ userChains, chain.callbacks ≠ [] := by
  intro chain member empty
  have := long chain member
  rw [empty] at this
  exact absurd this (by decide)

theorem noneAlone_of_long (long : ∀ chain ∈ userChains, 2 ≤ chain.callbacks.length) (name : String) :
    ∀ chain ∈ userChains, chain.callbacks ≠ [name] := by
  intro chain member alone
  have := long chain member
  rw [alone, List.length_singleton] at this
  exact absurd this (by decide)

/-- The record of a callback that is nowhere a chain of its own. -/
theorem construct_recordOf (constructed : construct preRegistered weakGroupsToNodes processed = .ok r)
    (order : processed.Perm userChains) {name : String}
    (noneAlone : ∀ chain ∈ userChains, chain.callbacks ≠ [name]) :
    RecordOf userChains name (UnorderedMap.subscript r.adjacencyList name) := by
  have record := construct_record constructed name
  rw [keptChains_eq fun chain member => noneAlone chain (order.mem_iff.1 member)] at record
  exact record.perm order

theorem isChainGraph_of_construct (constructed : construct preRegistered weakGroupsToNodes processed = .ok r)
    (long : ∀ chain ∈ userChains, 2 ≤ chain.callbacks.length) (order : processed.Perm userChains) :
    IsChainGraph r.adjacencyList userChains := by
  have record := fun name => construct_recordOf constructed order (noneAlone_of_long long name)
  have keys : ∀ name, name ∈ r.adjacencyList ↔ Named userChains name := fun name =>
    (construct_keys constructed name).trans (Named.perm order)
  refine ⟨keys, fun name => (record name).outgoing, fun name => (record name).nodup,
    fun name => (record name).indegree, fun name => ?_, fun name member => ?_⟩
  · obtain ⟨stored, isPerm, stores⟩ := (record name).stores
    exact ⟨stored, isPerm, stores.deadlines, stores.periods⟩
  · exact (record name).isLeast ((keys name).1 member)

/-- **The constructor builds the graph of the chains**, whatever the order it goes
through them in. -/
theorem construct_isChainGraph (preRegistered : PreRegisteredNames)
    (weakGroupsToNodes : WeakCallbackGroupsToNodesMap)
    (long : ∀ chain ∈ userChains, 2 ≤ chain.callbacks.length) (order : processed.Perm userChains) :
    ∃ r, construct preRegistered weakGroupsToNodes processed = .ok r ∧ IsChainGraph r.adjacencyList userChains := by
  obtain ⟨r, constructed⟩ := construct_returns preRegistered weakGroupsToNodes
    fun chain member => nonempty_of_long long chain (order.mem_iff.1 member)
  exact ⟨r, constructed, isChainGraph_of_construct constructed long order⟩

/-- Two chains over the same callbacks, one of them through each twice. -/
def patrolChains : List UserChain :=
  [{ chainName := "patrol", callbacks := ["camera", "detect", "camera", "detect"], deadline := 40, period := 20 },
    { chainName := "near", callbacks := ["camera", "detect"], deadline := 10, period := 5 }]

theorem construct_isChainGraph_patrol :
    ∃ r, construct nearFarNames nearFarGroups patrolChains.reverse = .ok r ∧
      IsChainGraph r.adjacencyList patrolChains :=
  construct_isChainGraph nearFarNames nearFarGroups (by decide) patrolChains.reverse_perm

/-! ## Chains of one callback -/

/-- The order in which the constructor goes through the chains does not matter. -/
def OrderIrrelevant (preRegistered : PreRegisteredNames) (weakGroupsToNodes : WeakCallbackGroupsToNodesMap)
    (userChains : List UserChain) : Prop :=
  ∀ processed processed' : List UserChain, processed.Perm userChains → processed'.Perm userChains →
    ∀ r r', construct preRegistered weakGroupsToNodes processed = .ok r →
      construct preRegistered weakGroupsToNodes processed' = .ok r' →
      UnorderedMap.SameEntries SameRecord r.adjacencyList r'.adjacencyList

/-- In every order, each callback of a chain has its deadline, and none that is tighter
than its `min_deadline`. -/
def KeepsDeadlines (preRegistered : PreRegisteredNames) (weakGroupsToNodes : WeakCallbackGroupsToNodesMap)
    (userChains : List UserChain) : Prop :=
  ∀ processed : List UserChain, processed.Perm userChains →
    ∀ r, construct preRegistered weakGroupsToNodes processed = .ok r →
      ∀ chain ∈ userChains, ∀ name ∈ chain.callbacks,
        chain.deadline ∈ (UnorderedMap.subscript r.adjacencyList name).deadlines ∧
          r.adjacencyList.minDeadline name ≤ chain.deadline

theorem sameEntries_of_subscript {a b : AdjacencyList} (keys : ∀ name, name ∈ a ↔ name ∈ b)
    (same : ∀ name ∈ a, SameRecord (UnorderedMap.subscript a name) (UnorderedMap.subscript b name)) :
    UnorderedMap.SameEntries SameRecord a b := by
  refine .of_lookup (fun name absent => ?_) (fun name info found => ?_)
  · rw [AList.lookup_eq_none] at absent ⊢
    exact mt (keys name).1 absent
  · have member : name ∈ a := (keys name).2 (UnorderedMap.mem_iff_lookup.2 ⟨info, found⟩)
    obtain ⟨info', found'⟩ := UnorderedMap.mem_iff_lookup.1 member
    have related := same name member
    rw [UnorderedMap.subscript_of_lookup found, UnorderedMap.subscript_of_lookup found'] at related
    exact ⟨info', found', related⟩

/-- A chain of its own that comes last leaves nothing. -/
theorem record_of_aloneLast {chain : UserChain} {name : String} (alone : chain.callbacks = [name])
    (constructed : construct preRegistered weakGroupsToNodes (processed ++ [chain]) = .ok r) :
    UnorderedMap.subscript r.adjacencyList name = {} := by
  have record := construct_record constructed name
  rw [keptChains_concat_alone processed alone] at record
  exact record.eq_empty fun _ member => by cases member

/-- A callback that is in no chain but those of its own. -/
theorem record_of_aloneOnly {name : String}
    (only : ∀ chain ∈ processed, name ∈ chain.callbacks → chain.callbacks = [name])
    (constructed : construct preRegistered weakGroupsToNodes processed = .ok r) :
    UnorderedMap.subscript r.adjacencyList name = {} :=
  (construct_record constructed name).eq_empty fun chain kept inChain =>
    (keptChains_subset processed kept).2 (only chain (keptChains_subset processed kept).1 inChain)

/-- **The order does not matter** exactly if no callback is both a chain of its own and
in a longer one. -/
theorem orderIrrelevant_iff (nonempty : ∀ chain ∈ userChains, chain.callbacks ≠ []) :
    OrderIrrelevant preRegistered weakGroupsToNodes userChains ↔
      ∀ name, (∃ chain ∈ userChains, chain.callbacks = [name]) →
        ∀ chain ∈ userChains, name ∈ chain.callbacks → chain.callbacks = [name] := by
  constructor
  · rintro irrelevant name ⟨alone, isAlone, one⟩ chain member inChain
    by_contra longer
    -- `alone` last, and `alone` before all longer chains
    have last : (userChains.erase alone ++ [alone]).Perm userChains :=
      (List.perm_append_singleton _ _).trans (List.perm_cons_erase isAlone).symm
    have first := List.filter_append_perm (fun chain : UserChain => decide (chain.callbacks = [name])) userChains
    obtain ⟨r, constructed⟩ := construct_returns preRegistered weakGroupsToNodes
      fun chain member => nonempty chain (last.mem_iff.1 member)
    obtain ⟨r', constructed'⟩ := construct_returns preRegistered weakGroupsToNodes
      fun chain member => nonempty chain (first.mem_iff.1 member)
    have same := (irrelevant _ _ last first r r' constructed constructed').subscript (SameRecord.refl _) name
    have record' := construct_record constructed' name
    have kept : chain ∈ keptChains (userChains.filter (fun chain => decide (chain.callbacks = [name])) ++
        userChains.filter (fun chain => !decide (chain.callbacks = [name]))) name := by
      rw [keptChains, List.foldl_append, foldl_keepChain fun chain member => by
        simpa using (List.mem_filter.1 member).2]
      exact List.mem_append_right _ (List.mem_filter.2 ⟨member, by simpa using longer⟩)
    obtain ⟨stored, isPerm, stores⟩ := record'.stores
    have deadline : chain.deadline ∈ (UnorderedMap.subscript r'.adjacencyList name).deadlines := by
      rw [stores.deadlines]
      exact List.mem_map_of_mem (isPerm.mem_iff.2 (mem_occurrences.2 ⟨kept, inChain⟩))
    rw [← same.deadlines.mem_iff, record_of_aloneLast one constructed] at deadline
    cases deadline
  · intro apart processed processed' order order' r r' constructed constructed'
    refine sameEntries_of_subscript (fun name => ?_) fun name _ => ?_
    · rw [construct_keys constructed, construct_keys constructed', Named.perm order, Named.perm order']
    · by_cases alone : ∃ chain ∈ userChains, chain.callbacks = [name]
      · have only := apart name alone
        rw [record_of_aloneOnly (fun chain member => only chain (order.mem_iff.1 member)) constructed,
          record_of_aloneOnly (fun chain member => only chain (order'.mem_iff.1 member)) constructed']
        exact SameRecord.refl _
      · have noneAlone : ∀ chain ∈ userChains, chain.callbacks ≠ [name] :=
          fun chain member one => alone ⟨chain, member, one⟩
        exact (construct_recordOf constructed order noneAlone).same (construct_recordOf constructed' order' noneAlone)

/-- **No deadline is lost** exactly if no chain is a single callback. -/
theorem keepsDeadlines_iff (nonempty : ∀ chain ∈ userChains, chain.callbacks ≠ []) :
    KeepsDeadlines preRegistered weakGroupsToNodes userChains ↔
      ∀ chain ∈ userChains, 2 ≤ chain.callbacks.length := by
  constructor
  · intro keeps chain member
    by_contra short
    obtain ⟨name, one⟩ : ∃ name, chain.callbacks = [name] := by
      have := List.length_pos_iff.2 (nonempty chain member)
      exact List.length_eq_one_iff.1 (by omega)
    have last : (userChains.erase chain ++ [chain]).Perm userChains :=
      (List.perm_append_singleton _ _).trans (List.perm_cons_erase member).symm
    obtain ⟨r, constructed⟩ := construct_returns preRegistered weakGroupsToNodes
      fun chain member => nonempty chain (last.mem_iff.1 member)
    have deadline := (keeps _ last r constructed chain member name (one ▸ List.mem_singleton_self _)).1
    rw [record_of_aloneLast one constructed] at deadline
    cases deadline
  · intro long processed order r constructed chain member name inChain
    have record := construct_recordOf constructed order (noneAlone_of_long long name)
    obtain ⟨stored, isPerm, stores⟩ := record.stores
    have deadline : chain.deadline ∈ (UnorderedMap.subscript r.adjacencyList name).deadlines := by
      rw [stores.deadlines]
      exact List.mem_map_of_mem (isPerm.mem_iff.2 (mem_occurrences.2 ⟨member, inChain⟩))
    exact ⟨deadline, (record.isLeast ⟨chain, member, inChain⟩).2 deadline⟩

/-- **The graph is independent of the order and keeps every deadline** exactly if no
chain is a single callback; the order alone does not matter exactly if no callback is
both a chain of its own and in a longer one. -/
theorem chainOrder_irrelevant_iff (preRegistered : PreRegisteredNames)
    (weakGroupsToNodes : WeakCallbackGroupsToNodesMap)
    (nonempty : ∀ chain ∈ userChains, chain.callbacks ≠ []) :
    (∀ processed : List UserChain, processed.Perm userChains →
      ∃ r, construct preRegistered weakGroupsToNodes processed = .ok r) ∧
    ((OrderIrrelevant preRegistered weakGroupsToNodes userChains ∧
        KeepsDeadlines preRegistered weakGroupsToNodes userChains) ↔
      ∀ chain ∈ userChains, chain.callbacks.length ≠ 1) ∧
    (OrderIrrelevant preRegistered weakGroupsToNodes userChains ↔
      ∀ name, (∃ chain ∈ userChains, chain.callbacks = [name]) →
        ∀ chain ∈ userChains, name ∈ chain.callbacks → chain.callbacks = [name]) := by
  have long : (∀ chain ∈ userChains, 2 ≤ chain.callbacks.length) ↔
      ∀ chain ∈ userChains, chain.callbacks.length ≠ 1 := by
    refine forall₂_congr fun chain member => ?_
    have := List.length_pos_iff.2 (nonempty chain member)
    omega
  refine ⟨fun processed order => construct_returns preRegistered weakGroupsToNodes fun chain member =>
    nonempty chain (order.mem_iff.1 member), ?_, orderIrrelevant_iff nonempty⟩
  rw [keepsDeadlines_iff nonempty, ← long, orderIrrelevant_iff nonempty]
  refine and_iff_right_of_imp fun long name alone => ?_
  obtain ⟨chain, member, one⟩ := alone
  exact absurd one (noneAlone_of_long long name chain member)

theorem chainOrder_irrelevant_patrol :
    OrderIrrelevant nearFarNames nearFarGroups patrolChains ∧
      KeepsDeadlines nearFarNames nearFarGroups patrolChains :=
  (chainOrder_irrelevant_iff nearFarNames nearFarGroups (by decide)).2.1.2 (by decide)

/-- `detect` is in a chain and a chain of its own. -/
def tickChains : List UserChain :=
  [{ chainName := "near", callbacks := ["camera", "detect"], deadline := 10, period := 5 },
    { chainName := "tick", callbacks := ["detect"], deadline := 30, period := 15 }]

/-- **The order can matter**: the chain of `detect` alone wipes out what the other one
has left, or is wiped out itself. -/
theorem chainOrder_matters :
    (∃ r r', construct nearFarNames nearFarGroups tickChains = .ok r ∧
      construct nearFarNames nearFarGroups tickChains.reverse = .ok r' ∧
      UnorderedMap.subscript r.adjacencyList "detect" = {} ∧
      (UnorderedMap.subscript r'.adjacencyList "detect").deadlines = [10] ∧
      r'.adjacencyList.indegree "detect" = 1) ∧
    ¬ OrderIrrelevant nearFarNames nearFarGroups tickChains ∧
    ¬ KeepsDeadlines nearFarNames nearFarGroups tickChains := by
  refine ⟨?_, fun irrelevant => ?_, fun keeps => ?_⟩
  · obtain ⟨r, constructed, runs⟩ := Loop.exists_ok_of_any
      (x := construct nearFarNames nearFarGroups tickChains)
      (p := fun r => (construct nearFarNames nearFarGroups tickChains.reverse).toOption.any fun r' =>
        UnorderedMap.subscript r.adjacencyList "detect" = {} ∧
          (UnorderedMap.subscript r'.adjacencyList "detect").deadlines = [10] ∧
          r'.adjacencyList.indegree "detect" = 1) (by decide)
    obtain ⟨r', constructed', runs⟩ := Loop.exists_ok_of_any runs
    exact ⟨r, r', constructed, constructed', of_decide_eq_true runs⟩
  · have apart := (orderIrrelevant_iff (by decide)).1 irrelevant "detect"
    exact absurd (apart (by decide)) (by decide)
  · exact absurd ((keepsDeadlines_iff (by decide)).1 keeps) (by decide)

/-! ## Roots -/

/-- **The root loop starts from a callback that comes first in all its chains**, and only
from such ones, exactly if its places do not wrap the 8-bit count around to 0. -/
theorem root_iff_nonFirst_iff (preRegistered : PreRegisteredNames)
    (weakGroupsToNodes : WeakCallbackGroupsToNodesMap)
    (long : ∀ chain ∈ userChains, 2 ≤ chain.callbacks.length) :
    ∃ r, construct preRegistered weakGroupsToNodes userChains = .ok r ∧
      ∀ (order : IterationOrder) (name : String), Named userChains name →
        (NonFirst userChains name ↔ ∃ before, name ∈ (r.arrange order).adjacencyList.outgoing before) ∧
        ((name ∈ (r.arrange order).adjacencyList.roots ↔ ¬ NonFirst userChains name) ↔
          (2 ^ 8 ∣ places userChains name → places userChains name = 0)) := by
  obtain ⟨r, constructed⟩ := construct_returns preRegistered weakGroupsToNodes (nonempty_of_long long)
  have graph := isChainGraph_of_construct constructed long (List.Perm.refl userChains)
  refine ⟨r, constructed, fun order name named => ⟨?_, ?_⟩⟩
  · rw [nonFirst_iff_step]
    refine exists_congr fun before => ?_
    rw [← graph.outgoing]
    exact (outgoing_arranged order r.adjacencyList before).mem_iff
  · have member : name ∈ (r.arrange order).adjacencyList :=
      ((order.adjacencyList_same r.adjacencyList).mem_iff name).1 ((graph.keys name).2 named)
    have zero : (r.arrange order).adjacencyList.indegree name = 0 ↔ 2 ^ 8 ∣ places userChains name := by
      have kept : (r.arrange order).adjacencyList.indegree name = r.adjacencyList.indegree name :=
        indegree_arranged order r.adjacencyList name
      rw [kept, Fin.ext_iff, graph.indegree]
      exact Nat.dvd_iff_mod_eq_zero.symm
    rw [AdjacencyList.mem_roots_iff, and_iff_right member, zero, ← places_pos_iff]
    omega

theorem root_iff_nonFirst_patrol :
    ∃ r, construct nearFarNames nearFarGroups patrolChains = .ok r ∧
      ∀ order : IterationOrder, "detect" ∉ (r.arrange order).adjacencyList.roots := by
  have long : ∀ chain ∈ patrolChains, 2 ≤ chain.callbacks.length := by decide
  obtain ⟨r, constructed, isRoot⟩ := root_iff_nonFirst_iff nearFarNames nearFarGroups long
  refine ⟨r, constructed, fun order root => ?_⟩
  have right := (isRoot order "detect" ⟨_, List.mem_cons_self, by decide⟩).2.2 (by decide)
  exact right.1 root ⟨_, List.mem_cons_self, by decide⟩

/-- As many chains from `camera` to `detect` as an 8-bit counter has values. -/
def manyChains : List UserChain :=
  (List.range 256).map fun i =>
    { chainName := toString i, callbacks := ["camera", "detect"], deadline := 10, period := 5 }

/-- **A callback of 256 chains can pass for a root** although it comes first in none. -/
theorem root_of_manyChains :
    ∃ r, construct nearFarNames nearFarGroups manyChains = .ok r ∧
      "detect" ∈ (r.arrange .stored).adjacencyList.roots ∧ NonFirst manyChains "detect" ∧
      "detect" ∈ (r.arrange .stored).adjacencyList.outgoing "camera" := by
  have callbacks : ∀ chain ∈ manyChains, chain.callbacks = ["camera", "detect"] := by
    intro chain member
    obtain ⟨i, -, rfl⟩ := List.mem_map.1 member
    rfl
  obtain ⟨first, isFirst⟩ : ∃ chain, chain ∈ manyChains :=
    List.exists_mem_of_ne_nil _ (by simp [manyChains])
  have long : ∀ chain ∈ manyChains, 2 ≤ chain.callbacks.length := by
    intro chain member
    rw [callbacks chain member]
    decide
  obtain ⟨r, constructed⟩ := construct_returns nearFarNames nearFarGroups (nonempty_of_long long)
  have graph := isChainGraph_of_construct constructed long (List.Perm.refl manyChains)
  have named : "detect" ∈ r.adjacencyList :=
    (graph.keys _).2 ⟨first, isFirst, by rw [callbacks first isFirst]; decide⟩
  have counted : places manyChains "detect" = 256 := by
    rw [places, List.count_flatMap, manyChains, List.map_map]
    have one : ∀ i ∈ List.range 256, (["detect"] : List String).count "detect" = 1 := fun _ _ => rfl
    have sum : ((List.range 256).map fun _ => 1).sum = 256 := by
      rw [List.map_const', List.sum_replicate, List.length_range]
      rfl
    exact (congrArg List.sum (List.map_congr_left one)).trans sum
  have zero : r.adjacencyList.indegree "detect" = 0 := by
    apply Fin.ext
    rw [graph.indegree, counted]
    rfl
  refine ⟨r, constructed, AdjacencyList.mem_roots_iff.2 ⟨named, zero⟩, ?_, ?_⟩
  · exact places_pos_iff.1 (by rw [counted]; decide)
  · exact (graph.outgoing _ _).2 ⟨first, isFirst, by rw [callbacks first isFirst]; decide⟩

end CallbackRegistry

end PreemptiveExecutor
