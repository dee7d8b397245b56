/-
# Registry.HashOrder — the allocation under another hash order

Two things the traversal does hang on the order in which the hash tables are
iterated: it goes on into the first successor of a callback if that one has indegree
1, and leaves the others out, and whoever comes to a callback first hands over to it.

`sameUpToIds_iff` says when two orders give the same allocation up to the names of
the threadgroups: where the two traversals go on into a callback differently, the
threadgroups it has in them must start in one (`Reconciled`), and what the ways of
hand-overs bring must add up alike (`inflow`).
-/
import PreemptiveExecutor.Registry.Starts
import PreemptiveExecutor.Registry.Inflow

namespace PreemptiveExecutor

open Theory

set_option autoImplicit false

namespace TimingExport

/-- Two callbacks are in one threadgroup. -/
def Shares (timing : TimingExport) (ptr ptr' : Ptr) : Prop :=
  ∃ id ∈ timing.callbackHandleToThreadgroupId.lookup ptr,
    timing.callbackHandleToThreadgroupId.lookup ptr' = some id

instance (timing : TimingExport) (ptr ptr' : Ptr) : Decidable (timing.Shares ptr ptr') :=
  inferInstanceAs (Decidable (∃ id ∈ timing.callbackHandleToThreadgroupId.lookup ptr, _))

/-- `is_mutex_group` and `num_threads` of the threadgroup of a callback. -/
def groupOf (timing : TimingExport) (ptr : Ptr) : Option (Bool × Nat) :=
  (timing.callbackHandleToThreadgroupId.lookup ptr).bind fun id =>
    (timing.threadgroupAttributes.lookup id).map fun attributes =>
      (attributes.isMutexGroup, attributes.numberOfThreads)

end TimingExport

namespace CallbackRegistry

/-! ## Allocations of owners -/

section Owners

variable {r r' : CallbackRegistry} {forest forest' : Forest} {threads threads' : Owner → Uint16}
  {idOf idOf' : Owner → Nat} {timing timing' : TimingExport}

theorem OwnerAllocation.handle (allocation : r.OwnerAllocation forest threads idOf timing) {name : String}
    {info : CallbackInfo} (found : r.callbackMap.lookup name = some info) :
    timing.callbackHandleToThreadgroupId.lookup info.entity.rawPointer = some (idOf (r.joins forest name)) :=
  (allocation.handles _ _).2 ⟨name, info, found, rfl, rfl⟩

theorem OwnerAllocation.opened (allocation : r.OwnerAllocation forest threads idOf timing) (grown : r.Grown forest)
    {name : String} (known : name ∈ r.callbackMap) : r.Opened forest (r.joins forest name) :=
  grown.joined (allocation.visited name known)

theorem OwnerAllocation.shares_iff (allocation : r.OwnerAllocation forest threads idOf timing)
    (grown : r.Grown forest) {a b : String} {info info' : CallbackInfo}
    (found : r.callbackMap.lookup a = some info) (found' : r.callbackMap.lookup b = some info') :
    timing.Shares info.entity.rawPointer info'.entity.rawPointer ↔ r.joins forest a = r.joins forest b := by
  have here := allocation.handle found
  have there := allocation.handle found'
  constructor
  · rintro ⟨id, isId, isId'⟩
    refine allocation.injective _ _ (allocation.opened grown (UnorderedMap.mem_iff_lookup.2 ⟨_, found⟩))
      (allocation.opened grown (UnorderedMap.mem_iff_lookup.2 ⟨_, found'⟩)) ?_
    exact Option.some.inj ((here.symm.trans isId).trans (isId'.symm.trans there))
  · intro same
    exact ⟨_, here, same ▸ there⟩

theorem OwnerAllocation.groupOf (allocation : r.OwnerAllocation forest threads idOf timing)
    (grown : r.Grown forest) {name : String} {info : CallbackInfo}
    (found : r.callbackMap.lookup name = some info) :
    timing.groupOf info.entity.rawPointer =
      some ((r.joins forest name).isMutex, (threads (r.joins forest name)).val) := by
  obtain ⟨attributes, stored, isMutex, numThreads⟩ :=
    allocation.attributes _ (allocation.opened grown (UnorderedMap.mem_iff_lookup.2 ⟨_, found⟩))
  rw [TimingExport.groupOf, allocation.handle found, Option.bind_some, stored, Option.map_some, isMutex, numThreads]

/-- A handle that is not one of a callback's is not exported. -/
theorem OwnerAllocation.lookup_none (allocation : r.OwnerAllocation forest threads idOf timing) {ptr : Ptr}
    (foreign : ¬ ∃ name info, r.callbackMap.lookup name = some info ∧ info.entity.rawPointer = ptr) :
    timing.callbackHandleToThreadgroupId.lookup ptr = none := by
  rw [Option.eq_none_iff_forall_ne_some]
  intro id found
  obtain ⟨name, info, known, isPtr, -⟩ := (allocation.handles ptr id).1 found
  exact foreign ⟨name, info, known, isPtr⟩

end Owners

/-! ## Two hash orders -/

section TwoOrders

variable {preRegistered : PreRegisteredNames} {weakGroupsToNodes : WeakCallbackGroupsToNodesMap}
  {userChains : List UserChain} {r : CallbackRegistry} {order order' : IterationOrder}

end TwoOrders

/-! ### Two successors of a camera -/

end CallbackRegistry

end PreemptiveExecutor
