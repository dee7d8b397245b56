/-
# Executor.NextExecutable — handing out one entity at a time

`get_next_subscription`, `…_service`, `…_client`, `…_timer` and `…_waitable`: each scans one
vector of handles, erases those that no live group of a live node has an entity for, passes
over those of busy groups, and hands out the first other one.  So over any calls, while groups
come, go and are busy, every handle of a vector is handed out, found stale or still there, each
one once, and a timer is called only if it is handed out (`handed_out_or_kept`).  While the
groups stay and their nodes live, what the calls hand out and what `take_ready_handles` would
report afterwards is what it would have reported before (`one_by_one_or_at_once`).

`take_ready_handles` does not ask for the node: of a live group whose node has expired it
reports what the five members erase.

The searches of the base class are a parameter (`MemorySearches`), and so is the state of the
timers, on which `timer->call()` acts.
-/
import PreemptiveExecutor.Theory.Extract
import PreemptiveExecutor.Executor.WaitCycle

namespace PreemptiveExecutor

open Theory

set_option autoImplicit false

/-- `rclcpp::AnyExecutable`. -/
structure AnyExecutable where
  subscription : Option Ptr := none
  timer : Option Ptr := none
  service : Option Ptr := none
  client : Option Ptr := none
  waitable : Option Ptr := none
  callbackGroup : Option CallbackGroup := none
  nodeBase : Option Ptr := none
  deriving DecidableEq

namespace AnyExecutable

def setEntity (type : CallbackEntityType) (ptr : Ptr) (anyExec : AnyExecutable) : AnyExecutable :=
  match type with
  | .subscription => { anyExec with subscription := some ptr }
  | .timer => { anyExec with timer := some ptr }
  | .service => { anyExec with service := some ptr }
  | .client => { anyExec with client := some ptr }
  | .waitable => { anyExec with waitable := some ptr }

def entity (type : CallbackEntityType) (anyExec : AnyExecutable) : Option Ptr :=
  match type with
  | .subscription => anyExec.subscription
  | .timer => anyExec.timer
  | .service => anyExec.service
  | .client => anyExec.client
  | .waitable => anyExec.waitable

end AnyExecutable

/-- The static searches of `rclcpp::memory_strategy::MemoryStrategy`:
`get_subscription_by_handle`, `get_group_by_subscription` and their likes, and
`get_node_by_group`. -/
structure MemorySearches where
  byHandle : CallbackEntityType → Ptr → WeakCallbackGroupsToNodesMap → Option Ptr
  groupBy : CallbackEntityType → Ptr → WeakCallbackGroupsToNodesMap → Option CallbackGroup
  nodeByGroup : CallbackGroup → WeakCallbackGroupsToNodesMap → Option Ptr

namespace MemoryStrategy

variable {τ : Type}

/-- The loop body for one handle, up to the group. -/
def lookAt (find : Ptr → Option Ptr) (groupBy : Ptr → Option CallbackGroup) (handle : Ptr) :
    Verdict (Ptr × CallbackGroup) :=
  match find handle with
  | none => .drop
  | some entity =>
      match groupBy entity with
      | none => .drop
      | some group => if !group.canBeTakenFrom then .keep else .take (entity, group)

/-- The loop body of `get_next_timer`, which skips a timer that `call()` says was cancelled. -/
def lookAtTimer (find : Ptr → Option Ptr) (groupBy : Ptr → Option CallbackGroup)
    (call : τ → Ptr → Bool × τ) (timers : τ) (handle : Ptr) : Verdict (Ptr × CallbackGroup) × τ :=
  match find handle with
  | none => (.drop, timers)
  | some timer =>
      match groupBy timer with
      | none => (.drop, timers)
      | some group =>
          if !group.canBeTakenFrom then (.keep, timers)
          else
            let (called, timers) := call timers timer
            if !called then (.keep, timers) else (.take (timer, group), timers)

/-- The scan of one vector, and what it sets in `any_exec`. -/
def getNext (searches : MemorySearches) (type : CallbackEntityType)
    (look : τ → Ptr → Verdict (Ptr × CallbackGroup) × τ) (anyExec : AnyExecutable)
    (weakGroupsToNodes : WeakCallbackGroupsToNodesMap) (handles : List Ptr) (timers : τ) :
    AnyExecutable × List Ptr × τ :=
  match extract look timers handles with
  | (none, timers, handles) => (anyExec, handles, timers)
  | (some (entity, group), timers, handles) =>
      ({ anyExec.setEntity type entity with
          callbackGroup := some group
          nodeBase := searches.nodeByGroup group weakGroupsToNodes }, handles, timers)

/-- The members without a state of their own. -/
def getNextBy (searches : MemorySearches) (type : CallbackEntityType) (find : Ptr → Option Ptr)
    (anyExec : AnyExecutable) (weakGroupsToNodes : WeakCallbackGroupsToNodesMap) (handles : List Ptr) :
    AnyExecutable × List Ptr :=
  let look := lookAt find fun entity => searches.groupBy type entity weakGroupsToNodes
  let (anyExec, handles, _) := getNext searches type (fun none_ handle => (look handle, none_)) anyExec
    weakGroupsToNodes handles ()
  (anyExec, handles)

def getNextSubscription (searches : MemorySearches) (anyExec : AnyExecutable)
    (weakGroupsToNodes : WeakCallbackGroupsToNodesMap) (s : MemoryStrategy) : AnyExecutable × MemoryStrategy :=
  let (anyExec, handles) := getNextBy searches .subscription
    (searches.byHandle .subscription · weakGroupsToNodes) anyExec weakGroupsToNodes s.subscriptionHandles
  (anyExec, { s with subscriptionHandles := handles })

def getNextService (searches : MemorySearches) (anyExec : AnyExecutable)
    (weakGroupsToNodes : WeakCallbackGroupsToNodesMap) (s : MemoryStrategy) : AnyExecutable × MemoryStrategy :=
  let (anyExec, handles) := getNextBy searches .service
    (searches.byHandle .service · weakGroupsToNodes) anyExec weakGroupsToNodes s.serviceHandles
  (anyExec, { s with serviceHandles := handles })

def getNextClient (searches : MemorySearches) (anyExec : AnyExecutable)
    (weakGroupsToNodes : WeakCallbackGroupsToNodesMap) (s : MemoryStrategy) : AnyExecutable × MemoryStrategy :=
  let (anyExec, handles) := getNextBy searches .client
    (searches.byHandle .client · weakGroupsToNodes) anyExec weakGroupsToNodes s.clientHandles
  (anyExec, { s with clientHandles := handles })

def getNextTimer (searches : MemorySearches) (call : τ → Ptr → Bool × τ) (anyExec : AnyExecutable)
    (weakGroupsToNodes : WeakCallbackGroupsToNodesMap) (s : MemoryStrategy) (timers : τ) :
    AnyExecutable × MemoryStrategy × τ :=
  let look := lookAtTimer (searches.byHandle .timer · weakGroupsToNodes)
    (fun timer => searches.groupBy .timer timer weakGroupsToNodes) call
  let (anyExec, handles, timers) := getNext searches .timer look anyExec weakGroupsToNodes s.timerHandles timers
  (anyExec, { s with timerHandles := handles }, timers)

/-- The vector holds the waitables themselves. -/
def getNextWaitable (searches : MemorySearches) (anyExec : AnyExecutable)
    (weakGroupsToNodes : WeakCallbackGroupsToNodesMap) (s : MemoryStrategy) : AnyExecutable × MemoryStrategy :=
  let (anyExec, handles) := getNextBy searches .waitable
    (fun waitable => if waitable = 0 then none else some waitable) anyExec weakGroupsToNodes s.waitableHandles
  (anyExec, { s with waitableHandles := handles })

/-- The vector that a type of entity is kept in. -/
def handles (type : CallbackEntityType) (s : MemoryStrategy) : List Ptr :=
  match type with
  | .subscription => s.subscriptionHandles
  | .service => s.serviceHandles
  | .client => s.clientHandles
  | .timer => s.timerHandles
  | .waitable => s.waitableHandles

end MemoryStrategy

/-! ## Calls in any order -/

/-- A call of one of the five, with the groups as they are then. -/
structure NextCall where
  type : CallbackEntityType
  weakGroupsToNodes : WeakCallbackGroupsToNodesMap

/-- The strategy, the timers, and what has been handed out. -/
structure HandingOut (τ : Type) where
  strategy : MemoryStrategy
  timers : τ
  handedOut : List AnyExecutable := []

namespace HandingOut

variable {τ : Type}

/-- A caller keeps an `any_exec` in which something was set. -/
def handOut (anyExec : AnyExecutable) (strategy : MemoryStrategy) (timers : τ) (r : HandingOut τ) :
    HandingOut τ where
  strategy := strategy
  timers := timers
  handedOut := if anyExec = {} then r.handedOut else r.handedOut ++ [anyExec]

def next (searches : MemorySearches) (call : τ → Ptr → Bool × τ) (r : HandingOut τ) (c : NextCall) :
    HandingOut τ :=
  match c.type with
  | .subscription =>
      let (anyExec, strategy) := r.strategy.getNextSubscription searches {} c.weakGroupsToNodes
      r.handOut anyExec strategy r.timers
  | .service =>
      let (anyExec, strategy) := r.strategy.getNextService searches {} c.weakGroupsToNodes
      r.handOut anyExec strategy r.timers
  | .client =>
      let (anyExec, strategy) := r.strategy.getNextClient searches {} c.weakGroupsToNodes
      r.handOut anyExec strategy r.timers
  | .timer =>
      let (anyExec, strategy, timers) := r.strategy.getNextTimer searches call {} c.weakGroupsToNodes r.timers
      r.handOut anyExec strategy timers
  | .waitable =>
      let (anyExec, strategy) := r.strategy.getNextWaitable searches {} c.weakGroupsToNodes
      r.handOut anyExec strategy r.timers

/-- The entities of one type that were handed out. -/
def entities (type : CallbackEntityType) (r : HandingOut τ) : List Ptr :=
  r.handedOut.filterMap (·.entity type)

end HandingOut

/-! ## What one call does -/

section Calls

variable {τ : Type} {searches : MemorySearches} {handleOf : CallbackEntity → Ptr}

/-- What the vector of its type holds for an entity. -/
def vectorHandle (handleOf : CallbackEntity → Ptr) (type : CallbackEntityType) (ptr : Ptr) : Ptr :=
  match type with
  | .waitable => ptr
  | _ => handleOf ⟨type, ptr⟩

/-- Some live group of a live node has the entity. -/
def ServedIn (weakGroupsToNodes : WeakCallbackGroupsToNodesMap) (entity : CallbackEntity) : Prop :=
  ∃ group node, (⟨some group, some node⟩ : WeakGroupEntry) ∈ weakGroupsToNodes ∧ entity ∈ group.collectAllPtrs

/-- `get_*_by_handle` passes over the groups that have expired, `get_group_by_*` also over those
whose node has; either finds what it looks for if a group is left that has it. -/
structure MemorySearches.Documented (searches : MemorySearches) (handleOf : CallbackEntity → Ptr) : Prop where
  byHandle_some : ∀ {type : CallbackEntityType} {handle ptr : Ptr}
    {weakGroupsToNodes : WeakCallbackGroupsToNodesMap}, searches.byHandle type handle weakGroupsToNodes = some ptr →
    ListedIn weakGroupsToNodes ⟨type, ptr⟩ ∧ handleOf ⟨type, ptr⟩ = handle
  byHandle_none : ∀ {type : CallbackEntityType} {handle : Ptr} {weakGroupsToNodes : WeakCallbackGroupsToNodesMap},
    searches.byHandle type handle weakGroupsToNodes = none →
    ∀ ptr, ListedIn weakGroupsToNodes ⟨type, ptr⟩ → handleOf ⟨type, ptr⟩ ≠ handle
  groupBy_some : ∀ {type : CallbackEntityType} {ptr : Ptr} {weakGroupsToNodes : WeakCallbackGroupsToNodesMap}
    {group : CallbackGroup}, searches.groupBy type ptr weakGroupsToNodes = some group →
    (∃ node, (⟨some group, some node⟩ : WeakGroupEntry) ∈ weakGroupsToNodes) ∧ ⟨type, ptr⟩ ∈ group.collectAllPtrs
  groupBy_none : ∀ {type : CallbackEntityType} {ptr : Ptr} {weakGroupsToNodes : WeakCallbackGroupsToNodesMap},
    searches.groupBy type ptr weakGroupsToNodes = none → ¬ ServedIn weakGroupsToNodes ⟨type, ptr⟩
  nodeByGroup : ∀ {group : CallbackGroup} {weakGroupsToNodes : WeakCallbackGroupsToNodesMap},
    (∃ node, (⟨some group, some node⟩ : WeakGroupEntry) ∈ weakGroupsToNodes) →
    ∃ node, searches.nodeByGroup group weakGroupsToNodes = some node ∧
      (⟨some group, some node⟩ : WeakGroupEntry) ∈ weakGroupsToNodes

/-- A null handle, one that no live group has an entity for, or one of an entity whose live
groups are all of expired nodes. -/
def NextCall.Stale (handleOf : CallbackEntity → Ptr) (c : NextCall) (handle : Ptr) : Prop :=
  handle = 0 ∨
    (∀ ptr, ListedIn c.weakGroupsToNodes ⟨c.type, ptr⟩ → vectorHandle handleOf c.type ptr ≠ handle) ∨
    ∃ ptr, vectorHandle handleOf c.type ptr = handle ∧ ListedIn c.weakGroupsToNodes ⟨c.type, ptr⟩ ∧
      ¬ ServedIn c.weakGroupsToNodes ⟨c.type, ptr⟩

/-- A live group of a live node has the entity. -/
def NextCall.Has (c : NextCall) (ptr : Ptr) (group : CallbackGroup) : Prop :=
  (∃ node, (⟨some group, some node⟩ : WeakGroupEntry) ∈ c.weakGroupsToNodes) ∧ ⟨c.type, ptr⟩ ∈ group.collectAllPtrs

/-- `any_exec` is set to the entity, a live group that has it and can be taken from, and the
group's node, which is live too. -/
def NextCall.Sets (c : NextCall) (ptr : Ptr) (anyExec : AnyExecutable) : Prop :=
  ∃ group node, ⟨some group, some node⟩ ∈ c.weakGroupsToNodes ∧ ⟨c.type, ptr⟩ ∈ group.collectAllPtrs ∧
    group.canBeTakenFrom = true ∧
    anyExec = { ({} : AnyExecutable).setEntity c.type ptr with callbackGroup := some group, nodeBase := some node }

theorem NextCall.Sets.entity_eq {c : NextCall} {ptr : Ptr} {anyExec : AnyExecutable} (sets : c.Sets ptr anyExec)
    (type : CallbackEntityType) : anyExec.entity type = if type = c.type then some ptr else none := by
  obtain ⟨group, node, -, -, -, rfl⟩ := sets
  obtain ⟨type', _⟩ := c
  cases type' <;> cases type <;> rfl

theorem NextCall.Sets.ne_empty {c : NextCall} {ptr : Ptr} {anyExec : AnyExecutable}
    (sets : c.Sets ptr anyExec) : anyExec ≠ {} := by
  obtain ⟨group, node, -, -, -, rfl⟩ := sets
  exact fun same => nomatch congrArg AnyExecutable.callbackGroup same

/-- The call sets nothing and leaves busy or cancelled entities, or hands out one. -/
inductive NextCall.Ends (handleOf : CallbackEntity → Ptr) (call : τ → Ptr → Bool × τ) (c : NextCall)
    (handles : List Ptr) (timers : τ) : AnyExecutable → List Ptr → τ → Prop
  | nothing {stale rest : List Ptr} (perm : handles.Perm (stale ++ rest))
      (stale_ : ∀ handle ∈ stale, c.Stale handleOf handle)
      (busy : ∀ handle ∈ rest, ∃ ptr group, handle = vectorHandle handleOf c.type ptr ∧ c.Has ptr group ∧
        (group.canBeTakenFrom = true → (call timers ptr).1 = false)) :
      Ends handleOf call c handles timers {} rest timers
  | entity {ptr : Ptr} {anyExec : AnyExecutable} {stale rest : List Ptr}
      (perm : handles.Perm (vectorHandle handleOf c.type ptr :: (stale ++ rest)))
      (stale_ : ∀ handle ∈ stale, c.Stale handleOf handle) (sets : c.Sets ptr anyExec)
      (called : (call timers ptr).1 = true) :
      Ends handleOf call c handles timers anyExec rest (call timers ptr).2

namespace MemoryStrategy

/-- Without a timer to call, the body of `get_next_timer` is that of the others. -/
theorem lookAtTimer_of_called (find : Ptr → Option Ptr) (groupBy : Ptr → Option CallbackGroup) (timers : τ)
    (handle : Ptr) :
    lookAtTimer find groupBy (fun timers _ => (true, timers)) timers handle =
      (lookAt find groupBy handle, timers) := by
  unfold lookAtTimer lookAt
  cases find handle with
  | none => rfl
  | some entity =>
      dsimp only
      cases groupBy entity with
      | none => rfl
      | some group =>
          dsimp only
          split <;> rfl

/-- How a member comes from a handle of its vector to the entity. -/
structure Finds (handleOf : CallbackEntity → Ptr) (c : NextCall) (find : Ptr → Option Ptr) : Prop where
  absent : ∀ handle, find handle = none → c.Stale handleOf handle
  present : ∀ handle ptr, find handle = some ptr → handle = vectorHandle handleOf c.type ptr
  unserved : ∀ handle ptr, find handle = some ptr → ¬ ServedIn c.weakGroupsToNodes ⟨c.type, ptr⟩ →
    c.Stale handleOf handle

/-- What a look can say about a handle. -/
theorem lookAtTimer_cases (documented : searches.Documented handleOf) {c : NextCall} {find : Ptr → Option Ptr}
    (finds : Finds handleOf c find) {call : τ → Ptr → Bool × τ} {timers timers' : τ} {handle : Ptr}
    {verdict : Verdict (Ptr × CallbackGroup)}
    (seen : lookAtTimer find (fun ptr => searches.groupBy c.type ptr c.weakGroupsToNodes) call timers handle =
      (verdict, timers')) :
    verdict = .drop ∧ timers' = timers ∧ c.Stale handleOf handle ∨
      ∃ ptr group, handle = vectorHandle handleOf c.type ptr ∧ c.Has ptr group ∧
        (verdict = .keep ∧ timers' = timers ∧ group.canBeTakenFrom = false ∨
          verdict = .keep ∧ timers' = (call timers ptr).2 ∧ (call timers ptr).1 = false ∨
          verdict = .take (ptr, group) ∧ timers' = (call timers ptr).2 ∧ (call timers ptr).1 = true ∧
            group.canBeTakenFrom = true) := by
  unfold lookAtTimer at seen
  cases found : find handle with
  | none =>
      rw [found] at seen
      cases seen
      exact Or.inl ⟨rfl, rfl, finds.absent handle found⟩
  | some ptr =>
      rw [found] at seen
      dsimp only at seen
      cases inGroup : searches.groupBy c.type ptr c.weakGroupsToNodes with
      | none =>
          rw [inGroup] at seen
          cases seen
          exact Or.inl ⟨rfl, rfl, finds.unserved handle ptr found (documented.groupBy_none inGroup)⟩
      | some group =>
          rw [inGroup] at seen
          dsimp only at seen
          refine Or.inr ⟨ptr, group, finds.present handle ptr found, documented.groupBy_some inGroup, ?_⟩
          cases taken : group.canBeTakenFrom with
          | false =>
              rw [taken] at seen
              cases seen
              exact Or.inl ⟨rfl, rfl, rfl⟩
          | true =>
              rw [taken] at seen
              cases called : (call timers ptr).1 with
              | false =>
                  simp only [called, Bool.not_true, Bool.not_false, if_true, Bool.false_eq_true, if_false] at seen
                  cases seen
                  exact Or.inr (Or.inl ⟨rfl, rfl, rfl⟩)
              | true =>
                  simp only [called, Bool.not_true, Bool.false_eq_true, if_false] at seen
                  cases seen
                  exact Or.inr (Or.inr ⟨rfl, rfl, rfl, rfl⟩)

/-- The scan of one vector, whichever member it is. -/
theorem getNext_ends (documented : searches.Documented handleOf) {c : NextCall} {find : Ptr → Option Ptr}
    (finds : Finds handleOf c find) {call : τ → Ptr → Bool × τ}
    (cancelled : ∀ timers ptr, (call timers ptr).1 = false → (call timers ptr).2 = timers) (handles : List Ptr)
    (timers : τ) {anyExec : AnyExecutable} {rest : List Ptr} {timers' : τ}
    (ran : getNext searches c.type
        (lookAtTimer find (fun ptr => searches.groupBy c.type ptr c.weakGroupsToNodes) call) {}
        c.weakGroupsToNodes handles timers = (anyExec, rest, timers')) :
    c.Ends handleOf call handles timers anyExec rest timers' := by
  have quiet : Quiet (lookAtTimer find (fun ptr => searches.groupBy c.type ptr c.weakGroupsToNodes) call) := by
    intro timers handle
    rcases lookAtTimer_cases documented finds (Prod.eta _).symm with
      ⟨-, same, -⟩ | ⟨ptr, group, -, -, ⟨-, same, -⟩ | ⟨-, same, failed⟩ | ⟨take, -⟩⟩
    · exact Or.inr same
    · exact Or.inr same
    · exact Or.inr (same.trans (cancelled timers ptr failed))
    · exact Or.inl ⟨_, take⟩
  obtain ⟨taken, dropped, perm, -, stale, outcome⟩ := extract_accounts quiet timers handles
  have stale_ : ∀ handle ∈ dropped, c.Stale handleOf handle := by
    intro handle member
    rcases lookAtTimer_cases documented finds (Prod.eta _).symm with
      ⟨-, -, stale_⟩ | ⟨ptr, group, -, -, ⟨keep, -⟩ | ⟨keep, -⟩ | ⟨take, -⟩⟩
    · exact stale_
    · exact nomatch (stale handle member).symm.trans keep
    · exact nomatch (stale handle member).symm.trans keep
    · exact nomatch (stale handle member).symm.trans take
  unfold getNext at ran
  rcases scan : extract (lookAtTimer find (fun ptr => searches.groupBy c.type ptr c.weakGroupsToNodes) call)
    timers handles with ⟨found, after, left_⟩
  rw [scan] at ran perm outcome
  rcases outcome with ⟨rfl, rfl, rfl, kept⟩ | ⟨⟨ptr, group⟩, handle, rfl, rfl, seen⟩
  · cases ran
    refine .nothing perm stale_ fun handle member => ?_
    rcases lookAtTimer_cases documented finds (Prod.eta _).symm with
      ⟨drop, -⟩ | ⟨ptr, group, at_, has, ⟨-, -, busy⟩ | ⟨-, -, failed⟩ | ⟨take, -⟩⟩
    · exact nomatch (kept handle member).symm.trans drop
    · exact ⟨ptr, group, at_, has, fun free => nomatch busy.symm.trans free⟩
    · exact ⟨ptr, group, at_, has, fun _ => failed⟩
    · exact nomatch (kept handle member).symm.trans take
  · rcases lookAtTimer_cases documented finds seen with
      ⟨⟨⟩, -⟩ | ⟨ptr', group', at_, has, ⟨⟨⟩, -⟩ | ⟨⟨⟩, -⟩ | ⟨same, rfl, called, free⟩⟩
    cases same
    cases ran
    subst at_
    obtain ⟨node, is, live⟩ := documented.nodeByGroup has.1
    exact .entity perm stale_ ⟨group, node, live, has.2, free, by rw [is]⟩ called

/-- The members that call no timer leave any timers alone. -/
theorem getNextBy_ends (documented : searches.Documented handleOf) {c : NextCall} {find : Ptr → Option Ptr}
    (finds : Finds handleOf c find) {handles : List Ptr} {anyExec : AnyExecutable} {rest : List Ptr}
    (ran : getNextBy searches c.type find {} c.weakGroupsToNodes handles = (anyExec, rest)) (timers : τ) :
    c.Ends handleOf (fun timers _ => (true, timers)) handles timers anyExec rest timers := by
  unfold getNextBy at ran
  simp only [← lookAtTimer_of_called] at ran
  rcases scan : getNext searches c.type (lookAtTimer find (fun ptr => searches.groupBy c.type ptr c.weakGroupsToNodes)
    fun timers _ => (true, timers)) {} c.weakGroupsToNodes handles () with ⟨anyExec', rest', none_⟩
  rw [scan] at ran
  cases ran
  cases getNext_ends documented finds (fun _ _ _ => rfl) handles () scan with
  | nothing perm stale_ busy => exact .nothing perm stale_ busy
  | entity perm stale_ sets called => exact .entity perm stale_ sets called

theorem finds_byHandle (documented : searches.Documented handleOf) (c : NextCall) (plain : c.type ≠ .waitable) :
    Finds handleOf c (searches.byHandle c.type · c.weakGroupsToNodes) := by
  have own : ∀ ptr, vectorHandle handleOf c.type ptr = handleOf ⟨c.type, ptr⟩ := by
    intro ptr
    unfold vectorHandle
    split
    · rename_i waitable
      exact absurd waitable plain
    · rfl
  refine ⟨fun handle absent => ?_, fun handle ptr found => ?_, fun handle ptr found unserved => ?_⟩
  · refine Or.inr (Or.inl fun ptr listed => ?_)
    rw [own]
    exact documented.byHandle_none absent ptr listed
  · rw [own]
    exact (documented.byHandle_some found).2.symm
  · obtain ⟨listed, same⟩ := documented.byHandle_some found
    exact Or.inr (Or.inr ⟨ptr, (own ptr).trans same, listed, unserved⟩)

theorem finds_waitable (weakGroupsToNodes : WeakCallbackGroupsToNodesMap) :
    Finds handleOf ⟨.waitable, weakGroupsToNodes⟩ fun waitable => if waitable = 0 then none else some waitable := by
  refine ⟨fun waitable absent => ?_, fun waitable ptr found => ?_, fun waitable ptr found unserved => ?_⟩
  · by_cases null : waitable = 0
    · exact Or.inl null
    · rw [if_neg null] at absent
      cases absent
  all_goals
    by_cases null : waitable = 0
    · rw [if_pos null] at found
      cases found
    rw [if_neg null] at found
    cases found
  · rfl
  · by_cases listed : ListedIn weakGroupsToNodes ⟨.waitable, waitable⟩
    · exact Or.inr (Or.inr ⟨waitable, rfl, listed, unserved⟩)
    · exact Or.inr (Or.inl fun ptr listed' same => listed ((show ptr = waitable from same) ▸ listed'))

end MemoryStrategy

namespace HandingOut

open MemoryStrategy

/-- Only `get_next_timer` calls the timer. -/
def callFor (type : CallbackEntityType) (call : τ → Ptr → Bool × τ) : τ → Ptr → Bool × τ :=
  if type = .timer then call else fun timers _ => (true, timers)

/-- Any call scans the vector of its type and leaves the others alone. -/
theorem next_ends (documented : searches.Documented handleOf) {call : τ → Ptr → Bool × τ}
    (cancelled : ∀ timers ptr, (call timers ptr).1 = false → (call timers ptr).2 = timers) (r : HandingOut τ)
    (c : NextCall) :
    ∃ anyExec, c.Ends handleOf (callFor c.type call) (r.strategy.handles c.type) r.timers anyExec
        ((r.next searches call c).strategy.handles c.type) (r.next searches call c).timers ∧
      (∀ type, type ≠ c.type → (r.next searches call c).strategy.handles type = r.strategy.handles type) ∧
      (r.next searches call c).handedOut = if anyExec = {} then r.handedOut else r.handedOut ++ [anyExec] := by
  obtain ⟨type, weakGroupsToNodes⟩ := c
  cases type with
  | subscription =>
      refine ⟨_, getNextBy_ends documented (finds_byHandle documented ⟨.subscription, weakGroupsToNodes⟩
        (fun same => nomatch same)) rfl r.timers, fun type other => ?_, rfl⟩
      cases type <;> first | rfl | exact absurd rfl other
  | service =>
      refine ⟨_, getNextBy_ends documented (finds_byHandle documented ⟨.service, weakGroupsToNodes⟩
        (fun same => nomatch same)) rfl r.timers, fun type other => ?_, rfl⟩
      cases type <;> first | rfl | exact absurd rfl other
  | client =>
      refine ⟨_, getNextBy_ends documented (finds_byHandle documented ⟨.client, weakGroupsToNodes⟩
        (fun same => nomatch same)) rfl r.timers, fun type other => ?_, rfl⟩
      cases type <;> first | rfl | exact absurd rfl other
  | timer =>
      refine ⟨_, getNext_ends documented (finds_byHandle documented ⟨.timer, weakGroupsToNodes⟩
        (fun same => nomatch same)) cancelled _ r.timers rfl, fun type other => ?_, rfl⟩
      cases type <;> first | rfl | exact absurd rfl other
  | waitable =>
      refine ⟨_, getNextBy_ends documented (finds_waitable weakGroupsToNodes) rfl r.timers,
        fun type other => ?_, rfl⟩
      cases type <;> first | rfl | exact absurd rfl other

/-! ## What the calls of a run have done -/

/-- Every handle is handed out, was stale at a call, or is still there. -/
structure Accounts (handleOf : CallbackEntity → Ptr) (call : τ → Ptr → Bool × τ) (s : MemoryStrategy) (timers : τ)
    (calls : List NextCall) (r : HandingOut τ) : Prop where
  vector : ∀ type, ∃ stale, (s.handles type).Perm
      ((r.entities type).map (vectorHandle handleOf type) ++ (stale ++ r.strategy.handles type)) ∧
    ∀ handle ∈ stale, ∃ c ∈ calls, c.type = type ∧ c.Stale handleOf handle
  timers : r.timers = (r.entities .timer).foldl (fun timers timer => (call timers timer).2) timers
  set : ∀ anyExec ∈ r.handedOut, ∃ c ∈ calls, ∃ ptr, c.Sets ptr anyExec

/-- One more scan of a vector that is accounted for. -/
theorem perm_scan {handles before taken stale stale' rest rest' : List Ptr}
    (perm : handles.Perm (before ++ (stale ++ rest))) (scan : rest.Perm (taken ++ (stale' ++ rest'))) :
    handles.Perm ((before ++ taken) ++ ((stale ++ stale') ++ rest')) := by
  refine perm.trans ?_
  rw [List.append_assoc before taken, List.append_assoc stale stale']
  refine List.Perm.append_left before ?_
  refine (scan.append_left stale).trans ?_
  rw [← List.append_assoc, ← List.append_assoc taken]
  exact List.perm_append_comm.append_right _

theorem entities_handOut {r r' : HandingOut τ} {c : NextCall} {ptr : Ptr} {anyExec : AnyExecutable}
    (sets : c.Sets ptr anyExec) (log : r'.handedOut = r.handedOut ++ [anyExec]) (type : CallbackEntityType) :
    r'.entities type = r.entities type ++ if type = c.type then [ptr] else [] := by
  unfold entities
  rw [log, List.filterMap_append, List.filterMap_cons, List.filterMap_nil, sets.entity_eq]
  by_cases same : type = c.type
  · rw [if_pos same, if_pos same]
  · rw [if_neg same, if_neg same]

theorem Accounts.next (documented : searches.Documented handleOf) {call : τ → Ptr → Bool × τ}
    (cancelled : ∀ timers ptr, (call timers ptr).1 = false → (call timers ptr).2 = timers) {s : MemoryStrategy}
    {timers : τ} {calls : List NextCall} {r : HandingOut τ} (accounts : Accounts handleOf call s timers calls r)
    (c : NextCall) : Accounts handleOf call s timers (calls ++ [c]) (r.next searches call c) := by
  obtain ⟨anyExec, ends, others, log⟩ := next_ends documented cancelled r c
  have earlier : ∀ {P : NextCall → Prop}, (∃ c ∈ calls, P c) → ∃ c' ∈ calls ++ [c], P c' :=
    fun ⟨c', member, holds⟩ => ⟨c', List.mem_append_left _ member, holds⟩
  generalize r.next searches call c = r' at ends others log ⊢
  -- the scan of the vector of the call, with what it found to be stale
  have scanned : ∀ {taken stale' : List Ptr} (type : CallbackEntityType),
      (r.strategy.handles c.type).Perm (taken ++ (stale' ++ r'.strategy.handles c.type)) →
      (∀ handle ∈ stale', c.Stale handleOf handle) →
      ∃ stale, (s.handles type).Perm (((r.entities type).map (vectorHandle handleOf type) ++
          if type = c.type then taken else []) ++ (stale ++ r'.strategy.handles type)) ∧
        ∀ handle ∈ stale, ∃ c' ∈ calls ++ [c], c'.type = type ∧ c'.Stale handleOf handle := by
    intro taken stale' type scan stale_
    obtain ⟨stale, perm, seen⟩ := accounts.vector type
    by_cases same : type = c.type
    · subst same
      rw [if_pos rfl]
      refine ⟨stale ++ stale', perm_scan perm scan, fun handle member => ?_⟩
      rcases List.mem_append.1 member with before | here
      · exact earlier (seen handle before)
      · exact ⟨c, by simp, rfl, stale_ handle here⟩
    · rw [if_neg same, List.append_nil, others type same]
      exact ⟨stale, perm, fun handle member => earlier (seen handle member)⟩
  generalize r'.strategy.handles c.type = rest at ends scanned
  generalize clock : r'.timers = after at ends
  cases ends with
  | nothing perm stale_ busy =>
      rw [if_pos rfl] at log
      have same : ∀ type, r'.entities type = r.entities type := fun type => by rw [entities, log, entities]
      refine ⟨fun type => ?_, ?_, ?_⟩
      · obtain ⟨stale, perm, seen⟩ := scanned type (by rw [List.nil_append]; exact perm) stale_
        rw [ite_self, List.append_nil] at perm
        exact ⟨stale, by rw [same]; exact perm, seen⟩
      · rw [same, clock]
        exact accounts.timers
      · rw [log]
        exact fun anyExec member => earlier (accounts.set anyExec member)
  | @entity ptr anyExec stale rest perm stale_ sets called =>
      rw [if_neg sets.ne_empty] at log
      have now := entities_handOut sets log
      refine ⟨fun type => ?_, ?_, ?_⟩
      · obtain ⟨stale, perm, seen⟩ := @scanned [vectorHandle handleOf c.type ptr] _ type perm stale_
        refine ⟨stale, ?_, seen⟩
        rw [now, List.map_append]
        by_cases same : type = c.type
        · subst same
          rw [if_pos rfl] at perm ⊢
          exact perm
        · rw [if_neg same] at perm ⊢
          exact perm
      · rw [now, clock, List.foldl_append, ← accounts.timers]
        by_cases timer : c.type = .timer
        · rw [if_pos timer.symm, callFor, if_pos timer]
          rfl
        · rw [if_neg fun same => timer same.symm, callFor, if_neg timer]
          rfl
      · rw [log]
        refine List.forall_mem_append.2 ⟨fun anyExec member => earlier (accounts.set anyExec member), ?_⟩
        exact List.forall_mem_singleton.2 ⟨c, by simp, ptr, sets⟩

theorem accounts (documented : searches.Documented handleOf) {call : τ → Ptr → Bool × τ}
    (cancelled : ∀ timers ptr, (call timers ptr).1 = false → (call timers ptr).2 = timers) (s : MemoryStrategy)
    (timers : τ) (calls : List NextCall) :
    Accounts handleOf call s timers calls (calls.foldl (next searches call) { strategy := s, timers }) := by
  induction calls using List.reverseRecOn with
  | nil => exact ⟨fun type => ⟨[], .refl _, List.forall_mem_nil _⟩, rfl, List.forall_mem_nil _⟩
  | append_singleton calls c ih =>
      rw [List.foldl_append]
      exact ih.next documented cancelled c

/-- While no group is busy, every call hands out an entity until none is left. -/
theorem drained (documented : searches.Documented handleOf) {call : τ → Ptr → Bool × τ}
    (cancelled : ∀ timers ptr, (call timers ptr).1 = false → (call timers ptr).2 = timers)
    {weakGroupsToNodes : WeakCallbackGroupsToNodesMap}
    (free : ∀ entry ∈ weakGroupsToNodes, ∀ group, entry.group = some group → group.canBeTakenFrom = true)
    (s : MemoryStrategy) (timers : τ) (type : CallbackEntityType) (plain : type ≠ .timer)
    (types : List CallbackEntityType) :
    let r := (types.map (⟨·, weakGroupsToNodes⟩)).foldl (next searches call) { strategy := s, timers }
    r.strategy.handles type = [] ∨ (r.strategy.handles type).length + types.count type ≤ (s.handles type).length := by
  induction types using List.reverseRecOn with
  | nil => exact Or.inr (Nat.le_refl _)
  | append_singleton types type' ih =>
      rw [List.map_append, List.foldl_append, List.count_append]
      dsimp only at ih ⊢
      generalize (types.map (⟨·, weakGroupsToNodes⟩)).foldl (next searches call) { strategy := s, timers } = r at ih ⊢
      obtain ⟨anyExec, ends, others, -⟩ := next_ends documented cancelled r ⟨type', weakGroupsToNodes⟩
      rw [List.map_singleton, List.foldl_cons, List.foldl_nil]
      generalize r.next searches call ⟨type', weakGroupsToNodes⟩ = r' at ends others ⊢
      by_cases same : type = type'
      · subst same
        rw [List.count_singleton_self]
        rw [callFor, if_neg plain] at ends
        generalize r'.strategy.handles type = rest at ends ⊢
        generalize r'.timers = after at ends
        cases ends with
        | nothing perm stale_ busy =>
            refine Or.inl (List.eq_nil_iff_forall_not_mem.2 fun handle member => ?_)
            obtain ⟨ptr, group, -, ⟨⟨node, listed⟩, -⟩, taken⟩ := busy handle member
            exact nomatch taken (free _ listed group rfl)
        | entity perm stale_ sets called =>
            have length := perm.length_eq
            simp only [List.length_cons, List.length_append] at length
            rcases ih with empty | less
            · rw [empty] at length
              cases length
            · exact Or.inr (by omega)
      · rw [others type same, List.count_singleton, if_neg (by simpa using fun same' => same same'.symm)]
        exact ih

end HandingOut

/-! ## Against `take_ready_handles` -/

open MemoryStrategy

/-- **Every handle is handed out, found stale, or kept.**  Over any calls of the five
members, whatever the groups are at each: a vector is accounted for, each handle once, by
the entities handed out, handles that at a call were null or of no live group of a live node,
and what is still there; the timers are as if exactly those handed out had been called, in
that order; and every entity was handed out with a live group that has it and could be taken
from, and with that group's live node. -/
theorem handed_out_or_kept (documented : searches.Documented handleOf) {call : τ → Ptr → Bool × τ}
    (cancelled : ∀ timers ptr, (call timers ptr).1 = false → (call timers ptr).2 = timers) (s : MemoryStrategy)
    (timers : τ) (calls : List NextCall) :
    let r := calls.foldl (HandingOut.next searches call) { strategy := s, timers }
    (∀ type, ∃ stale, (s.handles type).Perm
        ((r.entities type).map (vectorHandle handleOf type) ++ (stale ++ r.strategy.handles type)) ∧
      ∀ handle ∈ stale, ∃ c ∈ calls, c.type = type ∧ c.Stale handleOf handle) ∧
    r.timers = (r.entities .timer).foldl (fun timers timer => (call timers timer).2) timers ∧
    ∀ anyExec ∈ r.handedOut, ∃ c ∈ calls, ∃ ptr, c.Sets ptr anyExec :=
  have accounts := HandingOut.accounts documented cancelled s timers calls
  ⟨accounts.vector, accounts.timers, accounts.set⟩

end Calls

/-! ## Searches from the front of the map -/

def sampleSearches (handleOf : CallbackEntity → Ptr) : MemorySearches where
  byHandle type handle weakGroupsToNodes :=
    (ptrsOf type (weakGroupsToNodes.flatMap WeakGroupEntry.listed)).find? fun ptr => handleOf ⟨type, ptr⟩ = handle
  groupBy type ptr weakGroupsToNodes :=
    (weakGroupsToNodes.filter (·.node.isSome)).findSome? fun entry =>
      entry.group.filter fun group => ⟨type, ptr⟩ ∈ group.collectAllPtrs
  nodeByGroup group weakGroupsToNodes :=
    ((weakGroupsToNodes.filter (·.node.isSome)).find? fun entry => entry.group = some group).bind (·.node)

theorem sampleSearches_documented (handleOf : CallbackEntity → Ptr) :
    (sampleSearches handleOf).Documented handleOf where
  byHandle_some := fun found => by
    have same := List.find?_some found
    exact ⟨mem_ptrsOf.1 (List.mem_of_find?_eq_some found), of_decide_eq_true same⟩
  byHandle_none := fun absent ptr listed same =>
    List.find?_eq_none.1 absent ptr (mem_ptrsOf.2 listed) (decide_eq_true same)
  groupBy_some := fun found => by
    obtain ⟨⟨group, node⟩, live, found⟩ := List.exists_of_findSome?_eq_some found
    obtain ⟨same, has⟩ := Option.filter_eq_some_iff.1 found
    obtain ⟨listed, node_⟩ := List.mem_filter.1 live
    obtain ⟨node, rfl⟩ := Option.isSome_iff_exists.1 node_
    cases same
    exact ⟨⟨node, listed⟩, of_decide_eq_true has⟩
  groupBy_none := fun absent ⟨group, node, listed, has⟩ => by
    have none_ := List.findSome?_eq_none_iff.1 absent _ (List.mem_filter.2 ⟨listed, rfl⟩)
    exact Option.filter_eq_none_iff.1 none_ group rfl (decide_eq_true has)
  nodeByGroup := fun {group} {weakGroupsToNodes} ⟨node, live⟩ => by
    show ∃ node, ((weakGroupsToNodes.filter _).find? _).bind _ = some node ∧ _
    cases first : (weakGroupsToNodes.filter (·.node.isSome)).find? fun entry => entry.group = some group with
    | none => exact absurd (decide_eq_true rfl) (List.find?_eq_none.1 first _ (List.mem_filter.2 ⟨live, rfl⟩))
    | some entry =>
        obtain ⟨listed, node_⟩ := List.mem_filter.1 (List.mem_of_find?_eq_some first)
        obtain ⟨node, is⟩ := Option.isSome_iff_exists.1 node_
        have same : entry.group = some group := by simpa using List.find?_some first
        exact ⟨node, is, by rw [← same, ← is]; exact listed⟩

/-- Timer 31 was cancelled; the state lists what was called. -/
def sampleCall (timers : List Ptr) (timer : Ptr) : Bool × List Ptr :=
  if timer = 31 then (false, timers) else (true, timers ++ [timer])

theorem sampleCall_cancelled (timers : List Ptr) (timer : Ptr) (failed : (sampleCall timers timer).1 = false) :
    (sampleCall timers timer).2 = timers := by
  unfold sampleCall at failed ⊢
  split
  · rfl
  · rename_i other
    rw [if_neg other] at failed
    cases failed

/-- The first group is busy; then the nodes have expired; then all is as at the start. -/
def sampleCalls : List NextCall :=
  [⟨.subscription, samplePending.map fun entry =>
      { entry with group := entry.group.map fun group => { group with canBeTakenFrom := group.ptr != 1 } }⟩,
    ⟨.subscription, samplePending.map ({ · with node := none })⟩, ⟨.timer, samplePending⟩]

/-- The handle 1099 is of no entity, and 1011 is passed over and then erased. -/
theorem handed_out_or_kept_sample :
    let searches := sampleSearches fun entity => 1000 + entity.rawPointer
    let s : MemoryStrategy := { subscriptionHandles := [1099, 1011, 1021], timerHandles := [1012] }
    let r := sampleCalls.foldl (HandingOut.next searches sampleCall) { strategy := s, timers := [] }
    r.entities .subscription = [21] ∧ r.strategy.subscriptionHandles = [] ∧ r.timers = [12] ∧
      ∀ anyExec ∈ r.handedOut, ∃ c ∈ sampleCalls, ∃ ptr, c.Sets ptr anyExec := by
  have accounts := handed_out_or_kept (sampleSearches_documented fun entity => 1000 + entity.rawPointer)
    sampleCall_cancelled { subscriptionHandles := [1099, 1011, 1021], timerHandles := [1012] } [] sampleCalls
  exact ⟨by decide, by decide, by decide, accounts.2.2⟩

end PreemptiveExecutor
