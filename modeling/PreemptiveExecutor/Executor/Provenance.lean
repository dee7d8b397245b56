/-
# Executor.Provenance — where what runs comes from

A process configures an executor in two histories of calls: `register_callback_name` gives
entities their names, and `load_yaml_file` and `parse` fill the chains.  Calls of both kinds
may throw.  A name stays with the entity it was first registered for
(`getCallbackName_history`), and every chain of a parser, also one left by a parse that threw,
is that of an entry of a document that was loaded (`calls_fromDocument`).

Through the registry, the allocation and the three stages of start-up this reaches the
workers: whatever a worker group is handed in a run belongs to a callback that was found in
a pending group, has a registered name, and is named by a chain of a loaded document
(`runs_what_is_configured`).
-/
import PreemptiveExecutor.Parser.History
import PreemptiveExecutor.Registry.Completeness
import PreemptiveExecutor.Registry.Registration
import PreemptiveExecutor.Executor.MutualExclusion
import PreemptiveExecutor.Executor.Dispatch

namespace PreemptiveExecutor

open Theory

set_option autoImplicit false

/-! ## Registration histories -/

/-- A call of `register_callback_name`, whether it returns or throws. -/
def registerCall (preRegistered : PreRegisteredNames) (call : Registration) : PreRegisteredNames :=
  match registerCallbackName preRegistered call.entity call.name with
  | .ok preRegistered => preRegistered
  | .error _ => preRegistered

/-- The names after the calls of a process. -/
def registered (calls : List Registration) : PreRegisteredNames := calls.foldl registerCall ∅

/-- `get_callback_name`. -/
def getCallbackName (preRegistered : PreRegisteredNames) (entity : CallbackEntity) : Except Error String :=
  match preRegistered.lookup entity.rawPointer with
  | some callbackName => .ok callbackName
  | none => .error (.runtimeError "Callback not registered")

/-- A call that could name the entity. -/
def Registration.Names (call : Registration) (entity : CallbackEntity) : Prop :=
  call.entity.rawPointer = entity.rawPointer ∧ call.name ≠ ""

instance (call : Registration) (entity : CallbackEntity) : Decidable (call.Names entity) :=
  inferInstanceAs (Decidable (_ ∧ _))

/-- A call of a history returns exactly if its name is not empty and its entity has none. -/
theorem registerCallbackName_ok_iff (preRegistered : PreRegisteredNames) (call : Registration) :
    (∃ preRegistered', registerCallbackName preRegistered call.entity call.name = .ok preRegistered') ↔
      call.name ≠ "" ∧ preRegistered.lookup call.entity.rawPointer = none := by
  unfold registerCallbackName
  rw [AList.lookup_eq_none]
  by_cases empty : call.name = ""
  · rw [if_pos (by rw [empty]; rfl)]
    exact ⟨fun ⟨_, failed⟩ => (nomatch failed), fun ⟨named, _⟩ => absurd empty named⟩
  · rw [if_neg (by rw [String.isEmpty_iff]; exact empty)]
    by_cases present : call.entity.rawPointer ∈ preRegistered
    · rw [if_pos present]
      exact ⟨fun ⟨_, failed⟩ => (nomatch failed), fun ⟨_, absent⟩ => absurd present absent⟩
    · rw [if_neg present]
      exact ⟨fun _ => ⟨empty, present⟩, fun _ => ⟨_, rfl⟩⟩

/-- One call sets the name of its own entity, if it has none yet. -/
theorem registerCall_lookup (preRegistered : PreRegisteredNames) (call : Registration) (entity : CallbackEntity) :
    (registerCall preRegistered call).lookup entity.rawPointer =
      (preRegistered.lookup entity.rawPointer).or (if call.Names entity then some call.name else none) := by
  have outcome := registerCallbackName_ok_iff preRegistered call
  unfold registerCall
  cases ran : registerCallbackName preRegistered call.entity call.name with
  | ok preRegistered' =>
      obtain ⟨named, absent⟩ := outcome.1 ⟨_, ran⟩
      have sets := registerCallbackName_ok ran entity.rawPointer
      by_cases own : call.entity.rawPointer = entity.rawPointer
      · rw [if_pos ⟨own, named⟩, ← own, absent, Option.none_or, own]
        exact (sets _).2 (Or.inr ⟨own, rfl⟩)
      · rw [if_neg fun names => own names.1, Option.or_none]
        exact Option.ext fun name => (sets name).trans (or_iff_left fun other => own other.1)
  | error error =>
      by_cases names : call.Names entity
      · rw [if_pos names]
        cases present : preRegistered.lookup entity.rawPointer with
        | some name => rfl
        | none =>
            obtain ⟨own, named⟩ := names
            obtain ⟨_, returned⟩ := outcome.2 ⟨named, own ▸ present⟩
            rw [ran] at returned
            cases returned
      · rw [if_neg names, Option.or_none]

theorem registered_lookup (calls : List Registration) (entity : CallbackEntity) :
    (registered calls).lookup entity.rawPointer =
      (calls.find? fun call => call.Names entity).map Registration.name := by
  induction calls using List.reverseRecOn with
  | nil => exact AList.lookup_empty _
  | append_singleton calls call ih =>
      rw [registered, List.foldl_append, List.foldl_cons, List.foldl_nil, registerCall_lookup]
      change (((registered calls).lookup entity.rawPointer).or _) = _
      rw [ih, List.find?_append, Option.map_or]
      by_cases names : call.Names entity
      · rw [if_pos names, List.find?_cons_of_pos (by simpa using names)]
        rfl
      · rw [if_neg names, List.find?_cons_of_neg (by simpa using names)]
        rfl

/-- **The first registration of an entity stays.**  After any calls of
`register_callback_name`, whichever of them threw, `get_callback_name` answers with the name
that the first call with a name gave the entity, and throws if there was none; and a call
returns exactly if it has a name and none before it named its entity. -/
theorem getCallbackName_history (calls : List Registration) (entity : CallbackEntity) :
    (∀ name, getCallbackName (registered calls) entity = .ok name ↔
      ∃ before call after, calls = before ++ call :: after ∧ call.Names entity ∧ call.name = name ∧
        ∀ earlier ∈ before, ¬ earlier.Names entity) ∧
    (getCallbackName (registered calls) entity = .error (.runtimeError "Callback not registered") ↔
      ∀ call ∈ calls, ¬ call.Names entity) ∧
    ∀ name, (∃ preRegistered, registerCallbackName (registered calls) entity name = .ok preRegistered) ↔
      name ≠ "" ∧ ∀ call ∈ calls, ¬ call.Names entity := by
  have lookup := registered_lookup calls entity
  have none_iff : (registered calls).lookup entity.rawPointer = none ↔ ∀ call ∈ calls, ¬ call.Names entity := by
    rw [lookup, Option.map_eq_none_iff, List.find?_eq_none]
    simp only [decide_eq_true_eq]
  refine ⟨fun name => ?_, ?_, fun name => ?_⟩
  · unfold getCallbackName
    rw [lookup]
    constructor
    · intro answered
      cases first : calls.find? fun call => call.Names entity with
      | none => rw [first] at answered; cases answered
      | some call =>
          rw [first] at answered
          cases answered
          obtain ⟨names, before, after, rfl, others⟩ := List.find?_eq_some_iff_append.1 first
          exact ⟨before, call, after, rfl, of_decide_eq_true names, rfl, fun earlier member names =>
            by simpa [names] using others earlier member⟩
    · rintro ⟨before, call, after, rfl, names, rfl, others⟩
      have first : (before ++ call :: after).find? (fun call => call.Names entity) = some call :=
        List.find?_eq_some_iff_append.2 ⟨decide_eq_true names, before, after, rfl, fun earlier member => by
          simpa using others earlier member⟩
      rw [first]
      rfl
  · rw [← none_iff]
    unfold getCallbackName
    cases (registered calls).lookup entity.rawPointer with
    | none => exact ⟨fun _ => rfl, fun _ => rfl⟩
    | some name => exact ⟨fun failed => (nomatch failed), fun absent => (nomatch absent)⟩
  · rw [← none_iff]
    exact registerCallbackName_ok_iff (registered calls) ⟨entity, name⟩

/-! ## Parser histories -/

namespace ChainYamlParser

variable {conversions : YamlConversions}

/-- The chain is that of an entry of a document that the history loaded. -/
def FromDocument (conversions : YamlConversions) (history : List ParserCall) (chain : UserChain) : Prop :=
  ∃ document entries, .loadYamlFile (.ok document) ∈ history ∧ HasEntries document entries ∧
    ∃ entry ∈ entries, Denotes conversions entry chain

/-- Every stored chain has the property. -/
def Stores (P : UserChain → Prop) (userChains : UnorderedMap String UserChain) : Prop :=
  ∀ name chain, userChains.lookup name = some chain → P chain

/-- The loop stores chains of its entries, also those before a throw. -/
theorem parseEntries_stores {P : UserChain → Prop} (entries : List (YamlNode × YamlNode))
    (denoted : ∀ entry ∈ entries, ∀ chain, Denotes conversions entry chain → P chain) :
    ∀ {userChains : UnorderedMap String UserChain}, Stores P userChains →
      Stores P (parseEntries conversions entries userChains).2 := by
  induction entries with
  | nil => exact fun stores => stores
  | cons entry entries ih =>
      intro userChains stores
      rw [parseEntries]
      cases parsed : parseEntry conversions entry with
      | error what => exact stores
      | ok chain =>
          refine ih (fun entry member => denoted entry (List.mem_cons_of_mem _ member)) fun name chain' found => ?_
          rw [UnorderedMap.lookup_insert_eq] at found
          split at found
          · cases found
            exact denoted entry List.mem_cons_self chain (parseEntry_iff.1 parsed)
          · exact stores name chain' found

theorem parse_stores {P : UserChain → Prop} (parser : ChainYamlParser)
    (denoted : ∀ entries, HasEntries parser.yamlNode entries → ∀ entry ∈ entries, ∀ chain,
      Denotes conversions entry chain → P chain) (stores : Stores P parser.userChains) :
    Stores P (parser.parse conversions).2.userChains := by
  by_cases has : ∃ entries, HasEntries parser.yamlNode entries
  · obtain ⟨entries, has⟩ := has
    have kept := parseEntries_stores entries (denoted entries has) stores
    cases ran : parseEntries conversions entries parser.userChains with
    | mk answer userChains =>
        rw [ran] at kept
        cases answer with
        | error error => rw [has.parse_error ran]; exact kept
        | ok _ => rw [has.parse_ok ran]; exact kept
  · rw [parse_withoutEntries fun entries h => has ⟨entries, h⟩]
    exact stores

theorem FromDocument.append {history : List ParserCall} {chain : UserChain}
    (from_ : FromDocument conversions history chain) (last : ParserCall) :
    FromDocument conversions (history ++ [last]) chain := by
  obtain ⟨document, entries, loaded, has, denoted⟩ := from_
  exact ⟨document, entries, List.mem_append_left _ loaded, has, denoted⟩

/-- A document with chains was loaded; a parser starts with none. -/
theorem lastDocument_loaded {entries : List (YamlNode × YamlNode)} (history : List ParserCall)
    (has : HasEntries (lastDocument history) entries) :
    ParserCall.loadYamlFile (.ok (lastDocument history)) ∈ history := by
  induction history using List.reverseRecOn with
  | nil =>
      obtain ⟨_, none_, -⟩ := has
      cases none_
  | append_singleton history last ih =>
      rw [lastDocument, List.foldl_concat] at has ⊢
      cases last with
      | parse => exact List.mem_append_left _ (ih has)
      | loadYamlFile loaded =>
          cases loaded with
          | error what => exact List.mem_append_left _ (ih has)
          | ok document => exact List.mem_append_right _ (List.mem_singleton.2 rfl)

/-- **No chain comes from nowhere**, whatever calls returned, answered false or threw. -/
theorem calls_fromDocument (history : List ParserCall) :
    Stores (FromDocument conversions history) (calls conversions history).userChains := by
  induction history using List.reverseRecOn with
  | nil => exact fun name chain found => nomatch found
  | append_singleton history last ih =>
      have before : Stores (FromDocument conversions (history ++ [last])) (calls conversions history).userChains :=
        fun name chain found => (ih name chain found).append last
      rw [calls, List.foldl_concat]
      cases last with
      | loadYamlFile loaded => cases loaded <;> exact before
      | parse =>
          refine parse_stores _ (fun entries has entry member chain denotes => ?_) before
          have document := calls_yamlNode conversions history
          rw [calls] at document
          rw [document] at has
          exact FromDocument.append ⟨_, entries, lastDocument_loaded history has, has, entry, member, denotes⟩ _

theorem Lists.fromDocument {history : List ParserCall} {userChains : List UserChain}
    (lists : (calls conversions history).Lists userChains) :
    ∀ chain ∈ userChains, FromDocument conversions history chain := by
  intro chain member
  obtain ⟨⟨name, chain'⟩, stored, rfl⟩ := List.mem_map.1 (lists.mem_iff.1 member)
  exact calls_fromDocument history name chain' (UnorderedMap.mem_entries_iff.1 stored)

end ChainYamlParser

/-! ## From the configuration to the workers -/

/-- The callback was found in the group, whose node was alive, when the registry was built. -/
def CallbackInfo.FoundIn (weakGroupsToNodes : WeakCallbackGroupsToNodesMap) (info : CallbackInfo) : Prop :=
  (⟨some info.callbackGroup, some info.node⟩ : WeakGroupEntry) ∈ weakGroupsToNodes ∧
    info.callbackGroup.canBeTakenFrom = true ∧ info.entity ∈ info.callbackGroup.collectAllPtrs

theorem construct_foundIn {preRegistered : PreRegisteredNames}
    {weakGroupsToNodes : WeakCallbackGroupsToNodesMap} {userChains : List UserChain} {r : CallbackRegistry}
    (constructed : CallbackRegistry.construct preRegistered weakGroupsToNodes userChains = .ok r) :
    ∀ name info, r.callbackMap.lookup name = some info → info.FoundIn weakGroupsToNodes := by
  refine CallbackRegistry.construct_rule
    (fun callbackMap => ∀ name info, callbackMap.lookup name = some info → info.FoundIn weakGroupsToNodes)
    (fun name info found => nomatch found) (fun callbackMap group node entity listed taken member inv => ?_)
    constructed
  unfold CallbackRegistry.registerCallbackEntity UnorderedMap.emplace
  cases preRegistered.lookup entity.rawPointer with
  | none => exact inv
  | some callbackName =>
      dsimp only
      split
      · exact inv
      · intro name info found
        rw [UnorderedMap.lookup_insert_eq] at found
        split at found
        · cases found
          exact ⟨listed, taken, member⟩
        · exact inv name info found

/-- A callback that a returned allocation has given a threadgroup: found, registered under
its name, and named by a chain. -/
structure Configured (preRegistered : PreRegisteredNames) (weakGroupsToNodes : WeakCallbackGroupsToNodesMap)
    (userChains : List UserChain) (info : CallbackInfo) : Prop where
  found : info.FoundIn weakGroupsToNodes
  registered : preRegistered.lookup info.entity.rawPointer = some info.callbackName
  named : Named userChains info.callbackName

/-- **What is exported is configured**, and the threadgroup of a mutex callback is one. -/
theorem exported_configured {preRegistered : PreRegisteredNames}
    {weakGroupsToNodes : WeakCallbackGroupsToNodesMap} {userChains : List UserChain} {r r' : CallbackRegistry}
    {order : IterationOrder} {stack : Nat} {timing : TimingExport}
    (constructed : CallbackRegistry.construct preRegistered weakGroupsToNodes userChains = .ok r)
    (returned : r.callbackThreadgroupAllocation order stack = .ok (timing, r')) {ptr : Ptr} {id : Nat}
    (assigned : timing.callbackHandleToThreadgroupId.lookup ptr = some id) :
    ∃ info, info.entity.rawPointer = ptr ∧ Configured preRegistered weakGroupsToNodes userChains info ∧
      (info.callbackGroup.type = .mutuallyExclusive → ∃ threadGroup,
        timing.threadgroupAttributes.lookup id = some threadGroup ∧ threadGroup.isMutexGroup = true) := by
  obtain ⟨s, counted, traversed, counts, exported⟩ := CallbackRegistry.callbackThreadgroupAllocation_ok returned
  have sound := (CallbackRegistry.construct_sound constructed).arrange order
  obtain ⟨soundS, from_⟩ := (CallbackRegistry.traverseRoots_sound sound stack).1 s traversed
  have soundP := CallbackRegistry.prioritized_sound soundS order
  have same := (CallbackRegistry.countThreads_onlyNumThreads soundP stack).1 counted counts
  have soundC := same.sound soundP
  obtain ⟨exports, -⟩ := CallbackRegistry.exportTimingInformation_exports soundC exported
  obtain ⟨name, info, inMap, rfl, rfl⟩ := (exports.handles ptr id).1 assigned
  have nonzero := exports.assigned name info inMap
  have inS : s.callbackMap.lookup name = some info := by
    have callbacks : counted.callbackMap = s.callbackMap := same.callbackMap
    rwa [callbacks] at inMap
  -- the traversal only gives ids to what the constructor has found
  obtain ⟨info', inR, kept⟩ := from_.callbacks.lookup_left inS
  have scanned := (CallbackRegistry.construct_scanned constructed).1 name info' inR
  have found := construct_foundIn constructed name info' inR
  have fresh : ∀ name, ¬ (r.arrange order).Assigned name := fun name assigned =>
    (CallbackRegistry.construct_unassigned constructed name : ¬ r.Assigned name) assigned
  have visited := (CallbackRegistry.traverseRoots_assigned sound fresh traversed name).1 ⟨info, inS, nonzero⟩
  refine ⟨info, rfl, ⟨?_, ?_, ?_⟩, fun mutex => ?_⟩
  · rw [kept]
    exact found
  · rw [kept]
    exact scanned.1.trans (congrArg some scanned.2.1.symm)
  · rw [kept]
    show Named userChains info'.callbackName
    rw [scanned.2.1]
    exact CallbackRegistry.visits_named constructed order visited
  · have isMutex : info.isMutex = true := by rw [CallbackInfo.isMutex, mutex]; rfl
    obtain ⟨record, atId, isGroup⟩ := soundC.mutexRecord _ _ (soundC.mutexAssigned name info inMap isMutex nonzero)
    refine ⟨CallbackRegistry.attributesOf record, ?_, isGroup⟩
    rw [exports.attributes, atId]
    rfl

/-- The timing that a start-up loads is the one it keeps. -/
theorem startup_timing {env : Environment} {singleton : Option CallbackRegistry} {userChains : List UserChain}
    {pending : WeakCallbackGroupsToNodesMap} {e : ExecutorState} {registry' : CallbackRegistry}
    (started : (ExecutorState.create userChains pending).startup env singleton = .ok (e, registry')) :
    ∃ registry timing, (ExecutorState.create userChains pending).getInstance env singleton = .ok registry ∧
      registry.callbackThreadgroupAllocation env.order env.stack = .ok (timing, registry') ∧
      e.callbackHandleToThreadgroupId = some timing.callbackHandleToThreadgroupId ∧
      e.threadGroups = some timing.threadgroupAttributes := by
  obtain ⟨loaded, classified, load, classify, spawn⟩ := ExecutorState.startup_ok started
  obtain ⟨registry, timing, inst, allocated, rfl⟩ := ExecutorState.loadTimingInfo_ok load
  obtain ⟨handles, isHandles, sameHandles, sameGroups, -, -⟩ := ExecutorState.classifyCallbackGroups_ok classify rfl
  cases isHandles
  refine ⟨registry, timing, inst, allocated, ?_⟩
  unfold ExecutorState.spawnWorkerGroups at spawn
  split at spawn
  · rw [sameGroups] at spawn
    split at spawn
    · cases spawn
    · cases spawn
      exact ⟨sameHandles, rfl⟩
  · cases spawn

/-- **What runs is what was configured.**  After any calls that register names and any calls
that load and parse documents, a first start-up that returned, and any run: whatever a worker
group has been handed, and so whatever its workers run, belongs to a callback of a pending
group that was live and could be taken from; `get_callback_name` knows the callback under the
name of some chain's callback, in an entry of a document that was loaded; and if its group is
mutually exclusive, the worker group is a mutex group with one thread. -/
theorem runs_what_is_configured {conversions : YamlConversions} {history : List ChainYamlParser.ParserCall}
    {userChains : List UserChain} (lists : (ChainYamlParser.calls conversions history).Lists userChains)
    {registrations : List Registration} {env : Environment} (names : env.preRegistered = registered registrations)
    {pending : WeakCallbackGroupsToNodesMap} {e : ExecutorState} {registry' : CallbackRegistry}
    (started : (ExecutorState.create userChains pending).startup env none = .ok (e, registry'))
    {s : RunningExecutor} (reachable : e.system.Reachable s) {tgid : Nat} {g : WorkerGroup BundledExecutable}
    (group : s.groups tgid = some g) {bundle : BundledExecutable} (enqueued : bundle ∈ g.enqueued) :
    ∃ (info : CallbackInfo) (chain : UserChain), info.entity.rawPointer = bundle.getRawHandle ∧
      info.FoundIn pending ∧ getCallbackName (registered registrations) info.entity = .ok info.callbackName ∧
      ChainYamlParser.FromDocument conversions history chain ∧ info.callbackName ∈ chain.callbacks ∧
      (info.callbackGroup.type = .mutuallyExclusive → g.isMutexGroup = true ∧ g.threads.length = 1) := by
  obtain ⟨registry, timing, inst, allocated, handles, threadGroups⟩ := startup_timing started
  have process : ExecutorState.Singleton env none pending pending := ⟨fun _ => rfl, fun _ absent => nomatch absent⟩
  obtain ⟨_, final, timing', started', -⟩ := ExecutorState.startup_started process started
  have sameHandles := Option.some.inj (started'.handles.symm.trans handles)
  have sameGroups := Option.some.inj (started'.threadGroups.symm.trans threadGroups)
  have inv := systemInv_reachable started' reachable
  have here := inv.groups tgid g group
  have assigned := here.enqueued bundle enqueued
  rw [sameHandles] at assigned
  obtain ⟨info, same, configured, mutex⟩ := exported_configured inst allocated assigned
  obtain ⟨chain, inChains, inChain⟩ := configured.named
  refine ⟨info, chain, same, configured.found, ?_, lists.fromDocument chain inChains, inChain, fun isMutex => ?_⟩
  · have known := configured.registered
    rw [names] at known
    unfold getCallbackName
    rw [known]
  · obtain ⟨threadGroup, atId, isGroup⟩ := mutex isMutex
    have spawned : e.threadGroupIdWorkerMap.lookup tgid = some (.spawnMutexGroup threadGroup.priority) := by
      rw [started'.workers, sameGroups, atId, Option.map_some, ExecutorState.spawnWorkerGroup, if_pos isGroup]
    obtain ⟨isMutexGroup, priority, numberOfThreads, same, reached⟩ := here.reached
    refine ⟨?_, ?_⟩
    · rw [spawned] at same
      have kept := WorkerGroup.isMutexGroup_reachable reached
      have made := congrArg WorkerGroup.isMutexGroup (Option.some.inj same)
      exact kept.trans made.symm
    · rw [inv.numberOfThreads group spawned]
      rfl

/-! ### The sample -/

open ChainYamlParser in
/-- The document of the sample chain, loaded and parsed. -/
def sampleHistory : List ParserCall :=
  [.loadYamlFile (.ok (chainsDocument [(.scalar "control", .map
    [(.scalar "callbacks", .sequence [.scalar "sense", .scalar "act"]), (.scalar "deadline", .scalar "10"),
      (.scalar "period", .scalar "5")])])), .parse]

/-- The last call throws. -/
def sampleRegistrations : List Registration :=
  [⟨⟨.subscription, 11⟩, "sense"⟩, ⟨⟨.timer, 12⟩, "act"⟩, ⟨⟨.timer, 12⟩, "late"⟩]

/-- The ready timer is handed to its worker group. -/
def timerRun : List SystemLabel := [.populate ⟨[], [⟨12, true⟩]⟩ storedDispatch, .nextBatch true]

theorem runs_what_is_configured_timer :
    ∃ e registry s g, (ExecutorState.create sampleChains samplePending).startup sampleEnvironment none =
        .ok (e, registry) ∧ e.system.Reachable s ∧ s.groups 1 = some g ∧ g.enqueued = [.bundledTimer 12] ∧
      ∃ (info : CallbackInfo) (chain : UserChain), info.entity.rawPointer = 12 ∧
        getCallbackName (registered sampleRegistrations) info.entity = .ok info.callbackName ∧
        ChainYamlParser.FromDocument ChainYamlParser.scalarConversions sampleHistory chain ∧
        info.callbackName ∈ chain.callbacks := by
  obtain ⟨⟨e, registry⟩, started, runs⟩ := Loop.exists_ok_of_any
    (x := (ExecutorState.create sampleChains samplePending).startup sampleEnvironment none)
    (p := fun result => (result.1.system.run result.1.running timerRun).any fun s =>
      (s.groups 1).any fun g => g.enqueued == [.bundledTimer 12])
    (by decide)
  obtain ⟨s, ran, handed⟩ := (Option.any_eq_true _ _).1 runs
  obtain ⟨g, group, handed⟩ := (Option.any_eq_true _ _).1 handed
  have enqueued : g.enqueued = [.bundledTimer 12] := eq_of_beq handed
  have reachable : e.system.Reachable s := Transition.reachableWhile_run (.init rfl) ran
  have lists : (ChainYamlParser.calls ChainYamlParser.scalarConversions sampleHistory).Lists sampleChains :=
    List.Perm.of_eq rfl
  have names : sampleEnvironment.preRegistered = registered sampleRegistrations := rfl
  have member : BundledExecutable.bundledTimer 12 ∈ g.enqueued := by rw [enqueued]; exact List.mem_singleton_self _
  obtain ⟨info, chain, same, -, known, from_, inChain, -⟩ :=
    runs_what_is_configured lists names started reachable group member
  exact ⟨e, registry, s, g, started, reachable, group, enqueued, info, chain, same, known, from_, inChain⟩

end PreemptiveExecutor
