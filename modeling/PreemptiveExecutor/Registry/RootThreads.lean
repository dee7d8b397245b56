/-
# Registry.RootThreads — the thread counts of roots

A root threadgroup is to have a thread for every release that falls within the
longest deadline: the deadline over the period, rounded up.  The root formula
divides the integers before it rounds, so it rounds down; and it is evaluated for
threadgroups with successors only, the others keep their one thread.
`rootsStaffed_iff` says for which deadlines and periods that is the same.
-/
import Mathlib.Data.Rat.Floor
import PreemptiveExecutor.Registry.RootFormula
import PreemptiveExecutor.Registry.Records

namespace PreemptiveExecutor

open Theory

set_option autoImplicit false

/-- The quotient of a smaller deadline is rounded down to the ceiling only if there
is nothing to round. -/
theorem div_eq_ceil_iff {deadline stored period : Nat} (positive : 0 < period) (below : stored ≤ deadline) :
    ((stored / period : Nat) : Int) = ⌈(deadline : Rat) / period⌉ ↔ period ∣ deadline ∧ stored = deadline := by
  have positive' : (0 : Rat) < period := Nat.cast_pos.2 positive
  constructor
  · intro same
    have covers : (deadline : Rat) ≤ ((stored / period : Nat) : Rat) * period := by
      rw [← div_le_iff₀ positive']
      have ceiling := Int.le_ceil ((deadline : Rat) / period)
      rwa [← same] at ceiling
    have covers : deadline ≤ stored / period * period := by exact_mod_cast covers
    have fits := Nat.div_mul_le_self stored period
    exact ⟨⟨stored / period, (le_antisymm covers (fits.trans below)).trans (Nat.mul_comm _ _)⟩,
      le_antisymm below (covers.trans fits)⟩
  · rintro ⟨⟨quotient, rfl⟩, rfl⟩
    rw [Nat.mul_div_cancel_left _ positive, Nat.cast_mul, mul_div_cancel_left₀ _ positive'.ne', Int.ceil_natCast]

/-- One thread is the ceiling for one period at most. -/
theorem one_eq_ceil_iff {deadline period : Nat} (positive : 0 < period) :
    (1 : Int) = ⌈(deadline : Rat) / period⌉ ↔ 0 < deadline ∧ deadline ≤ period := by
  have positive' : (0 : Rat) < period := Nat.cast_pos.2 positive
  rw [eq_comm, Int.ceil_eq_iff, Int.cast_one, sub_self, div_le_one positive', div_pos_iff_of_pos_right positive',
    Nat.cast_pos, Nat.cast_le]

/-- All chains through the callback have the period of this one, and none has a later
deadline. -/
structure Longest (userChains : List UserChain) (callbackName : String) (longest : UserChain) : Prop where
  member : longest ∈ userChains
  through : callbackName ∈ longest.callbacks
  period : ∀ chain ∈ userChains, callbackName ∈ chain.callbacks → chain.period = longest.period
  deadline : ∀ chain ∈ userChains, callbackName ∈ chain.callbacks → chain.deadline ≤ longest.deadline

namespace CallbackRegistry

/-- A threadgroup that is no mutex group and has no incoming edge has as many threads
as periods of its first callback begin within the longest deadline. -/
def RootsStaffed (userChains : List UserChain) (s : TraversalState) (timing : TimingExport) : Prop :=
  ∀ id group first, s.threadgroupCallbackMap.lookup id = some group → group.isMutexGroup = false →
    (UnorderedMap.subscript s.threadgroupAdjacencyList id).incoming = [] → group.callbacks.head? = some first →
      ∀ longest, Longest userChains first longest →
        ∃ attributes, timing.threadgroupAttributes.lookup id = some attributes ∧
          (attributes.numberOfThreads : Int) = ⌈(longest.deadline.val : Rat) / longest.period.val⌉

/-- The traversal hands over from the threadgroup to another one. -/
def LeadsOn (r : CallbackRegistry) (forest : Forest) (o : Owner) : Prop :=
  ∃ call ∈ forest, ∃ before ∈ call.caller, r.adjacencyList.continues before = false ∧ r.carries forest before = o

instance (r : CallbackRegistry) (forest : Forest) (o : Owner) : Decidable (r.LeadsOn forest o) :=
  inferInstanceAs (Decidable (∃ call ∈ forest, ∃ before ∈ call.caller,
    r.adjacencyList.continues before = false ∧ r.carries forest before = o))

/-- With successors the quotient is exact, and of a deadline that no later chain of
one callback has erased; without, one period is enough. -/
def RootFits (r : CallbackRegistry) (userChains : List UserChain) (forest : Forest) (head : String)
    (longest : UserChain) : Prop :=
  if r.LeadsOn forest (.segment head) then
    longest.period.val ∣ longest.deadline.val ∧
      ∃ chain ∈ storedChains userChains head, chain.deadline = longest.deadline
  else 0 < longest.deadline.val ∧ longest.deadline.val ≤ longest.period.val

def RootsFit (r : CallbackRegistry) (userChains : List UserChain) (forest : Forest) : Prop :=
  ∀ call ∈ forest, call.caller = none → (r.owner call.callbackName).isMutex = false →
    ∀ longest, Longest userChains call.callbackName longest → r.RootFits userChains forest call.callbackName longest

/-- The root formula divides the latest stored deadline by the first stored period. -/
theorem rootNumThreads_stored {info : CallbackAdjacencyInfo} {stored : List UserChain} {numThreads : Uint16}
    (stores : Stores info stored) (counted : rootNumThreads info = .ok numThreads) :
    ∃ first ∈ stored, ∃ latest ∈ stored, (∀ chain ∈ stored, chain.deadline ≤ latest.deadline) ∧
      numThreads.val = latest.deadline.val / first.period.val := by
  obtain ⟨deadlines, period, isPeriod, -⟩ := rootNumThreads_ok counted
  obtain ⟨deadline, isDeadline⟩ := Option.ne_none_iff_exists'.1 fun h => deadlines (List.max?_eq_none_iff.1 h)
  have value := quotient_of_rootNumThreads counted
  rw [quotient, Option.mem_def.1 isPeriod, isDeadline] at value
  rw [stores.deadlines] at isDeadline
  rw [stores.periods] at isPeriod
  obtain ⟨first, member, rfl⟩ := List.mem_map.1 (List.mem_of_mem_head? isPeriod)
  obtain ⟨isMax, bound⟩ := List.max?_eq_some_iff.1 isDeadline
  obtain ⟨latest, member', rfl⟩ := List.mem_map.1 isMax
  exact ⟨first, member, latest, member', fun chain inStored => bound _ (List.mem_map_of_mem inStored), value⟩

theorem leadsOn_iff {r : CallbackRegistry} {forest : Forest} (called : r.adjacencyList.Called forest) (o : Owner) :
    r.LeadsOn forest o ↔ ∃ o', r.HandsOver forest o o' := by
  constructor
  · rintro ⟨call, member, before, caller, restarting, carried⟩
    exact ⟨_, (handsOver_iff called).2 ⟨call, member, before, caller, restarting, carried, rfl⟩⟩
  · rintro ⟨o', handed⟩
    obtain ⟨call, member, before, caller, restarting, carried, -⟩ := (handsOver_iff called).1 handed
    exact ⟨call, member, before, caller, restarting, carried⟩

variable {preRegistered : PreRegisteredNames} {weakGroupsToNodes : WeakCallbackGroupsToNodesMap}
  {userChains : List UserChain} {r r' counted : CallbackRegistry} {order : IterationOrder} {stack : Nat}
  {timing : TimingExport} {forest : Forest} {s : TraversalState} {head : String} {longest : UserChain}

/-- A root is opened by its own call. -/
theorem opened_of_root (own : r.owner head = .segment head) (root : ⟨head, none⟩ ∈ forest) :
    r.Opened forest (.segment head) :=
  ⟨⟨head, none⟩, root, by rw [opens, own]; rfl, own⟩

namespace Allocated

variable (allocated : Allocated order stack r timing forest s counted)

include allocated

theorem demand_root (own : (r.arrange order).owner head = .segment head) (root : ⟨head, none⟩ ∈ forest) :
    (∀ o, (r.arrange order).HandsOver forest (.segment head) o →
      rootNumThreads (UnorderedMap.subscript (r.arrange order).adjacencyList head) =
        .ok (counted.numThreadsOf (s.idOf (.segment head)))) ∧
    ((∀ o, ¬ (r.arrange order).HandsOver forest (.segment head) o) →
      counted.numThreadsOf (s.idOf (.segment head)) = 1) := by
  have refines := allocated.refines
  have demand := countThreads_demand refines.sound.1 refines.grown refines.names refines.links allocated.counts
  have opened := opened_of_root own root
  constructor
  · intro o handed
    obtain ⟨reached, zero⟩ := (reached_segment_iff refines.grown).2 ⟨own, root, o, handed⟩
    obtain ⟨callback, first⟩ := firstCallback_some opened
    obtain rfl := firstCallback_segment first
    have threads := demand.first _ callback reached zero first
    rwa [if_pos opened] at threads
  · intro isolated
    have zero : ((r.arrange order).ownersBefore forest (.segment head)).length % 2 ^ 8 = 0 := by
      have none_ : (r.arrange order).ownersBefore forest (.segment head) = [] :=
        List.eq_nil_iff_forall_not_mem.2 fun o member => refines.grown.root root o (mem_ownersBefore.1 member)
      rw [none_]
      rfl
    have threads := demand.other (.segment head) fun reached => by
      obtain ⟨-, -, o, handed⟩ := (reached_segment_iff refines.grown).1 ⟨reached, zero⟩
      exact isolated o handed
    rwa [if_pos opened] at threads

/-- **A root has the threads it is to have exactly if it fits.** -/
theorem numThreads_eq_ceil_iff
    (constructed : construct preRegistered weakGroupsToNodes userChains = .ok r)
    (nonzero : ∀ chain ∈ userChains, chain.period ≠ 0)
    (own : (r.arrange order).owner head = .segment head) (root : ⟨head, none⟩ ∈ forest)
    (isLongest : Longest userChains head longest) :
    ((counted.numThreadsOf (s.idOf (.segment head))).val : Int) =
        ⌈(longest.deadline.val : Rat) / longest.period.val⌉ ↔
      (r.arrange order).RootFits userChains forest head longest := by
  have positive : 0 < longest.period.val :=
    Nat.pos_of_ne_zero fun zero => nonzero longest isLongest.member (Fin.ext zero)
  obtain ⟨handing, isolated⟩ := allocated.demand_root own root
  unfold RootFits
  split
  · rename_i leads
    obtain ⟨o, handed⟩ := (leadsOn_iff allocated.isForest.called _).1 leads
    have stores := stores_arranged (construct_stores constructed head) order
    obtain ⟨first, stored, latest, stored', isLatest, value⟩ := rootNumThreads_stored stores (handing o handed)
    obtain ⟨member, through⟩ := storedChains_subset userChains head stored
    obtain ⟨member', through'⟩ := storedChains_subset userChains head stored'
    have below : latest.deadline ≤ longest.deadline := isLongest.deadline latest member' through'
    rw [value, isLongest.period first member through, div_eq_ceil_iff positive (Fin.le_iff_val_le_val.1 below)]
    refine and_congr_right fun _ => ⟨fun same => ⟨latest, stored', Fin.ext same⟩, ?_⟩
    rintro ⟨chain, kept, same⟩
    exact congrArg Fin.val (le_antisymm below (same ▸ isLatest chain kept))
  · rename_i ends
    have one := isolated fun o handed => ends ((leadsOn_iff allocated.isForest.called _).2 ⟨o, handed⟩)
    rw [one]
    exact one_eq_ceil_iff positive

end Allocated

/-- **All roots have the threads they are to have exactly if they fit.** -/
theorem rootsStaffed_iff (constructed : construct preRegistered weakGroupsToNodes userChains = .ok r)
    (nonzero : ∀ chain ∈ userChains, chain.period ≠ 0)
    (returned : r.callbackThreadgroupAllocation order stack = .ok (timing, r'))
    (traversed : traverseRoots stack (r.arrange order) = .ok s) :
    RootsStaffed userChains s timing ↔ ∀ forest, (r.arrange order).adjacencyList.DepthFirstForest forest →
      (r.arrange order).RootsFit userChains forest := by
  obtain ⟨forest, counted, allocated⟩ :=
    exists_allocated_of_traversed (construct_fresh constructed order) returned traversed
  have names := allocated.refines.names
  have links := allocated.refines.links
  have grown := allocated.refines.grown
  rw [allocated.isForest.forall_iff]
  constructor
  · intro staffed call member isRoot kind longest isLongest
    obtain ⟨head, caller⟩ := call
    obtain rfl : caller = none := isRoot
    have own : (r.arrange order).owner head = .segment head := segment_of_reentrant kind
    have opened := opened_of_root own member
    obtain ⟨group, atOwner, record⟩ := names.record _ opened
    obtain ⟨callback, first⟩ := firstCallback_some opened
    obtain rfl := firstCallback_segment first
    obtain ⟨attributes, exported, exact_⟩ := staffed _ group callback atOwner record.isMutexGroup
      ((incoming_eq_nil_iff links grown names opened).2 (grown.root member)) (record.first.trans first) longest isLongest
    obtain ⟨attributes', exported', -, threads⟩ := allocated.ownerAllocation.attributes _ opened
    obtain rfl : attributes = attributes' := Option.some.inj (exported.symm.trans exported')
    rw [threads] at exact_
    exact (allocated.numThreads_eq_ceil_iff constructed nonzero own member isLongest).1 exact_
  · intro fit id group first atId reentrant noIncoming isFirst longest isLongest
    obtain ⟨o, opened, rfl⟩ := names.onto id (UnorderedMap.mem_iff_lookup.2 ⟨group, atId⟩)
    obtain ⟨group', atOwner, record⟩ := names.record o opened
    obtain rfl : group = group' := Option.some.inj (atId.symm.trans atOwner)
    cases o with
    | mutexGroup ptr => rw [record.isMutexGroup] at reentrant; cases reentrant
    | segment head =>
        obtain rfl := firstCallback_segment (record.first.symm.trans isFirst)
        have root := root_of_not_handsOver opened ((incoming_eq_nil_iff links grown names opened).1 noIncoming)
        have own : (r.arrange order).owner first = .segment first := by
          obtain ⟨call, -, -, own⟩ := opened
          exact owner_segment own ▸ own
        obtain ⟨attributes, exported, -, threads⟩ := allocated.ownerAllocation.attributes _ opened
        refine ⟨attributes, exported, ?_⟩
        rw [threads]
        refine (allocated.numThreads_eq_ceil_iff constructed nonzero own root isLongest).2 ?_
        exact fit _ root rfl (by rw [own]; rfl) longest isLongest

/-! ### A root with successors -/

/-- A chain and a copy of it, so that every callback has a threadgroup of its own. -/
def releaseChains (deadline : Uint32) : List UserChain :=
  [{ chainName := "first", callbacks := ["camera", "detect", "record"], deadline, period := 4 },
    { chainName := "second", callbacks := ["camera", "detect", "record"], deadline, period := 4 }]

/-- **Two and a half periods get two threads.** -/
theorem rootsStaffed_roundedDown :
    ∃ r s timing r', construct cameraNames cameraGroups (releaseChains 10) = .ok r ∧
      (∀ chain ∈ releaseChains 10, chain.period ≠ 0) ∧
      r.callbackThreadgroupAllocation .stored 8 = .ok (timing, r') ∧
      traverseRoots 8 (r.arrange .stored) = .ok s ∧ ¬ RootsStaffed (releaseChains 10) s timing := by
  obtain ⟨r, constructed, runs⟩ := Loop.exists_ok_of_any
    (x := construct cameraNames cameraGroups (releaseChains 10))
    (p := fun r => (r.callbackThreadgroupAllocation .stored 8).toOption.any fun returned =>
      (traverseRoots 8 (r.arrange .stored)).toOption.any fun s =>
        (s.threadgroupCallbackMap.lookup 1).map (fun group => (group.isMutexGroup, group.callbacks.head?)) =
            some (false, some "camera") ∧
          (UnorderedMap.subscript s.threadgroupAdjacencyList 1).incoming = [] ∧
          (returned.1.threadgroupAttributes.lookup 1).map ThreadGroupAttributes.numberOfThreads = some 2) (by decide)
  obtain ⟨⟨timing, r'⟩, returned, runs⟩ := Loop.exists_ok_of_any runs
  obtain ⟨s, traversed, runs⟩ := Loop.exists_ok_of_any runs
  obtain ⟨isRoot, noIncoming, two⟩ := of_decide_eq_true runs
  refine ⟨r, s, timing, r', constructed, by decide, returned, traversed, fun staffed => ?_⟩
  obtain ⟨group, atRoot, same⟩ := Option.map_eq_some_iff.1 isRoot
  obtain ⟨reentrant, isFirst⟩ := Prod.mk.inj same
  obtain ⟨attributes, exported, exact_⟩ := staffed 1 group "camera" atRoot reentrant noIncoming isFirst
    ⟨"first", ["camera", "detect", "record"], 10, 4⟩ ⟨by decide, by decide, by decide, by decide⟩
  rw [exported] at two
  rw [show attributes.numberOfThreads = 10 / 4 from Option.some.inj two] at exact_
  obtain ⟨divides, -⟩ := (div_eq_ceil_iff (by decide : 0 < 4) le_rfl).1 exact_
  exact absurd divides (by decide)

/-- Three periods get three. -/
theorem rootsStaffed_exact :
    ∃ r s timing r', construct cameraNames cameraGroups (releaseChains 12) = .ok r ∧
      r.callbackThreadgroupAllocation .stored 8 = .ok (timing, r') ∧
      traverseRoots 8 (r.arrange .stored) = .ok s ∧ RootsStaffed (releaseChains 12) s timing := by
  obtain ⟨r, constructed, runs⟩ := Loop.exists_ok_of_any
    (x := construct cameraNames cameraGroups (releaseChains 12))
    (p := fun r => (r.callbackThreadgroupAllocation .stored 8).toOption.any fun _ =>
      (traverseRoots 8 (r.arrange .stored)).toOption.any fun _ =>
        ((r.arrange .stored).adjacencyList.searchForest 8).toOption.any fun forest =>
            (∀ call ∈ forest, call.caller = none → call.callbackName = "camera") ∧
              (r.arrange .stored).LeadsOn forest (.segment "camera")) (by decide)
  obtain ⟨⟨timing, r'⟩, returned, runs⟩ := Loop.exists_ok_of_any runs
  obtain ⟨s, traversed, runs⟩ := Loop.exists_ok_of_any runs
  refine ⟨r, s, timing, r', constructed, returned, traversed,
    (rootsStaffed_iff constructed (by decide) returned traversed).2 fun forest isForest => ?_⟩
  obtain ⟨onlyRoot, leads⟩ := of_decide_eq_true (isForest.of_search runs)
  intro call member isRoot _ longest isLongest
  have weights : ∀ chain ∈ releaseChains 12, chain.deadline = 12 ∧ chain.period = 4 := by decide
  obtain ⟨deadline, period⟩ := weights longest isLongest.member
  rw [onlyRoot call member isRoot, RootFits, if_pos leads, deadline, period]
  decide

end CallbackRegistry

end PreemptiveExecutor
