/-
# Executor.WaitSet — filling the wait set

`add_handles_to_wait_set` and the counts `number_of_ready_…` that the base executor sizes
the wait set by.  With those sizes every handle and every guard condition finds room, and
slot `i` of an array belongs to handle `i` of the vector: what `remove_null_handles` relies
on when it reads the arrays by the index of the vectors.  So over a whole
`wait_for_work`, from the groups over the filled wait set and the wait to
`take_ready_handles`, exactly the ready subscriptions and timers are reported
(`wait_for_work_reports`), whatever slots the waitables add.

The wait set of `rcl` and the waitables are a parameter (`WaitSetApi`), with what their
documentation promises (`WaitSetApi.Documented`): an add takes the next free slot of its
array, and a waitable adds at most as many entities as it has announced.  What a filled wait
set holds, array by array and waitable by waitable, is `Filled`.
-/
import PreemptiveExecutor.Executor.WaitCycle

namespace PreemptiveExecutor

open Theory

set_option autoImplicit false

/-- The arrays of an `rcl_wait_set_t`. -/
inductive SlotKind where
  | subscription
  | guardCondition
  | timer
  | client
  | service
  | event
  deriving DecidableEq

/-- The calls of `rcl`, `rclcpp` and the waitables that fill a wait set. -/
structure WaitSetApi (ω : Type) where
  capacity : SlotKind → ω → Nat
  slots : SlotKind → ω → List Ptr
  /-- `rcl_wait_set_add_…`; `none` is a return code other than `RCL_RET_OK`. -/
  add : SlotKind → ω → Ptr → Option ω
  addGuardCondition : ω → Ptr → Except Error ω
  /-- `waitable->add_to_wait_set`. -/
  addToWaitSet : Ptr → ω → Except Error ω
  /-- `waitable->get_number_of_ready_…`. -/
  numberOfReady : SlotKind → Ptr → Nat

/-- The strategy with its guard conditions. -/
structure WaitingStrategy extends MemoryStrategy where
  guardConditions : List Ptr := []

namespace WaitingStrategy

variable {ω : Type}

def addGuardCondition (s : WaitingStrategy) (guardCondition : Ptr) : WaitingStrategy :=
  if guardCondition ∈ s.guardConditions then s
  else { s with guardConditions := s.guardConditions ++ [guardCondition] }

def removeGuardCondition (s : WaitingStrategy) (guardCondition : Ptr) : WaitingStrategy :=
  { s with guardConditions := s.guardConditions.erase guardCondition }

def addWaitableHandle (s : WaitingStrategy) (waitable : Ptr) : Except Error WaitingStrategy :=
  if waitable = 0 then .error (.runtimeError "waitable object unexpectedly nullptr")
  else .ok { s with waitableHandles := s.waitableHandles ++ [waitable] }

/-! ## The sizes -/

/-- A count: the strategy's own entities and those the waitables announce. -/
def numberOf (api : WaitSetApi ω) (kind : SlotKind) (own : Nat) (s : WaitingStrategy) : Nat :=
  s.waitableHandles.foldl (fun number waitable => number + api.numberOfReady kind waitable) own

def numberOfReadySubscriptions (api : WaitSetApi ω) (s : WaitingStrategy) : Nat :=
  s.numberOf api .subscription s.subscriptionHandles.length

def numberOfReadyServices (api : WaitSetApi ω) (s : WaitingStrategy) : Nat :=
  s.numberOf api .service s.serviceHandles.length

def numberOfReadyEvents (api : WaitSetApi ω) (s : WaitingStrategy) : Nat := s.numberOf api .event 0

def numberOfReadyClients (api : WaitSetApi ω) (s : WaitingStrategy) : Nat :=
  s.numberOf api .client s.clientHandles.length

def numberOfGuardConditions (api : WaitSetApi ω) (s : WaitingStrategy) : Nat :=
  s.numberOf api .guardCondition s.guardConditions.length

def numberOfReadyTimers (api : WaitSetApi ω) (s : WaitingStrategy) : Nat :=
  s.numberOf api .timer s.timerHandles.length

def numberOfWaitables (s : WaitingStrategy) : Nat := s.waitableHandles.length

/-! ## `add_handles_to_wait_set` -/

/-- The loop over one vector of handles, left with `false` at the first that cannot be
added. -/
def addEach (add : ω → Ptr → Option ω) : ω → List Ptr → Bool × ω
  | waitSet, [] => (true, waitSet)
  | waitSet, handle :: handles =>
      match add waitSet handle with
      | none => (false, waitSet)
      | some waitSet => addEach add waitSet handles

/-- The result of the call, and the wait set that it leaves. -/
def addHandlesToWaitSet (api : WaitSetApi ω) (s : WaitingStrategy) (waitSet : ω) : Except Error (Bool × ω) := do
  let (added, waitSet) := addEach (api.add .subscription) waitSet s.subscriptionHandles
  if !added then return (false, waitSet)
  let (added, waitSet) := addEach (api.add .client) waitSet s.clientHandles
  if !added then return (false, waitSet)
  let (added, waitSet) := addEach (api.add .service) waitSet s.serviceHandles
  if !added then return (false, waitSet)
  let (added, waitSet) := addEach (api.add .timer) waitSet s.timerHandles
  if !added then return (false, waitSet)
  let waitSet ← s.guardConditions.foldlM api.addGuardCondition waitSet
  let waitSet ← s.waitableHandles.foldlM (fun waitSet waitable => api.addToWaitSet waitable waitSet) waitSet
  return (true, waitSet)

end WaitingStrategy

/-! ## What the middleware promises -/

namespace WaitSetApi

variable {ω : Type}

/-- The arrays have grown at their ends. -/
def Grows (api : WaitSetApi ω) (waitSet waitSet' : ω) (more : SlotKind → List Ptr) : Prop :=
  ∀ kind, api.slots kind waitSet' = api.slots kind waitSet ++ more kind ∧
    api.capacity kind waitSet' = api.capacity kind waitSet

/-- One array only. -/
def only (kind : SlotKind) (handles : List Ptr) (kind' : SlotKind) : List Ptr :=
  if kind' = kind then handles else []

structure Documented (api : WaitSetApi ω) : Prop where
  add : ∀ kind waitSet handle, handle ≠ 0 → (api.slots kind waitSet).length < api.capacity kind waitSet →
    ∃ waitSet', api.add kind waitSet handle = some waitSet' ∧ api.Grows waitSet waitSet' (only kind [handle])
  addGuardCondition : ∀ waitSet guardCondition,
    (api.slots .guardCondition waitSet).length < api.capacity .guardCondition waitSet →
    ∃ waitSet', api.addGuardCondition waitSet guardCondition = .ok waitSet' ∧
      api.Grows waitSet waitSet' (only .guardCondition [guardCondition])
  addToWaitSet : ∀ waitable waitSet,
    (∀ kind, (api.slots kind waitSet).length + api.numberOfReady kind waitable ≤ api.capacity kind waitSet) →
    ∃ waitSet' more, api.addToWaitSet waitable waitSet = .ok waitSet' ∧ api.Grows waitSet waitSet' more ∧
      ∀ kind, (more kind).length ≤ api.numberOfReady kind waitable

variable {api : WaitSetApi ω} {waitSet waitSet₁ waitSet' : ω} {more more' : SlotKind → List Ptr}

theorem Grows.refl (api : WaitSetApi ω) (waitSet : ω) : api.Grows waitSet waitSet fun _ => [] :=
  fun _ => ⟨(List.append_nil _).symm, rfl⟩

theorem Grows.trans (first : api.Grows waitSet waitSet₁ more) (second : api.Grows waitSet₁ waitSet' more') :
    api.Grows waitSet waitSet' fun kind => more kind ++ more' kind := fun kind =>
  ⟨by rw [(second kind).1, (first kind).1, List.append_assoc], (second kind).2.trans (first kind).2⟩

theorem Grows.congr (grows : api.Grows waitSet waitSet' more) (same : ∀ kind, more kind = more' kind) :
    api.Grows waitSet waitSet' more' := fun kind => same kind ▸ grows kind

end WaitSetApi

/-! ## Filling -/

namespace WaitingStrategy

open WaitSetApi

variable {ω : Type} {api : WaitSetApi ω}

theorem addEach_fills (documented : api.Documented) {kind : SlotKind} {handles : List Ptr} (nonNull : 0 ∉ handles)
    {waitSet : ω} (room : (api.slots kind waitSet).length + handles.length ≤ api.capacity kind waitSet) :
    ∃ waitSet', addEach (api.add kind) waitSet handles = (true, waitSet') ∧
      api.Grows waitSet waitSet' (only kind handles) := by
  induction handles generalizing waitSet with
  | nil => exact ⟨waitSet, rfl, (Grows.refl api waitSet).congr fun kind' => (ite_self _).symm⟩
  | cons handle handles ih =>
      obtain ⟨isHandle, others⟩ := not_or.1 fun null => nonNull (List.mem_cons.2 null)
      rw [List.length_cons] at room
      obtain ⟨waitSet₁, added, grows⟩ := documented.add kind waitSet handle (Ne.symm isHandle) (by omega)
      have later : (api.slots kind waitSet₁).length + handles.length ≤ api.capacity kind waitSet₁ := by
        rw [(grows kind).1, (grows kind).2, only, if_pos rfl, List.length_append, List.length_singleton]
        omega
      obtain ⟨waitSet', rest, grows'⟩ := ih others later
      refine ⟨waitSet', by rw [addEach, added]; exact rest, (grows.trans grows').congr fun kind' => ?_⟩
      unfold only
      split <;> rfl

theorem addGuardConditions_fill (documented : api.Documented) {guardConditions : List Ptr} {waitSet : ω}
    (room : (api.slots .guardCondition waitSet).length + guardConditions.length ≤
      api.capacity .guardCondition waitSet) :
    ∃ waitSet', guardConditions.foldlM api.addGuardCondition waitSet = .ok waitSet' ∧
      api.Grows waitSet waitSet' (only .guardCondition guardConditions) := by
  induction guardConditions generalizing waitSet with
  | nil => exact ⟨waitSet, rfl, (Grows.refl api waitSet).congr fun kind' => (ite_self _).symm⟩
  | cons guardCondition guardConditions ih =>
      rw [List.length_cons] at room
      obtain ⟨waitSet₁, added, grows⟩ := documented.addGuardCondition waitSet guardCondition (by omega)
      have later : (api.slots .guardCondition waitSet₁).length + guardConditions.length ≤
          api.capacity .guardCondition waitSet₁ := by
        rw [(grows .guardCondition).1, (grows .guardCondition).2, only, if_pos rfl, List.length_append,
          List.length_singleton]
        omega
      obtain ⟨waitSet', rest, grows'⟩ := ih later
      refine ⟨waitSet', by rw [List.foldlM_cons, added]; exact rest, (grows.trans grows').congr fun kind' => ?_⟩
      unfold only
      split <;> rfl

/-- What is counted up from a start. -/
theorem le_foldl_add (count : Ptr → Nat) (waitables : List Ptr) {start start' : Nat} (le : start ≤ start') :
    start ≤ waitables.foldl (fun number waitable => number + count waitable) start ∧
      waitables.foldl (fun number waitable => number + count waitable) start ≤
        waitables.foldl (fun number waitable => number + count waitable) start' := by
  induction waitables generalizing start start' with
  | nil => exact ⟨Nat.le_refl _, le⟩
  | cons waitable waitables ih =>
      obtain ⟨above, mono⟩ := ih (Nat.add_le_add_right le (count waitable))
      exact ⟨Nat.le_of_add_right_le above, mono⟩

theorem addWaitables_fill (documented : api.Documented) {waitables : List Ptr} {waitSet : ω}
    (room : ∀ kind, waitables.foldl (fun number waitable => number + api.numberOfReady kind waitable)
      (api.slots kind waitSet).length ≤ api.capacity kind waitSet) :
    ∃ (waitSet' : ω) (parts : List (SlotKind → List Ptr)),
      waitables.foldlM (fun waitSet waitable => api.addToWaitSet waitable waitSet) waitSet = .ok waitSet' ∧
      List.Forall₂ (fun waitable part => ∀ kind, (part kind).length ≤ api.numberOfReady kind waitable)
        waitables parts ∧
      api.Grows waitSet waitSet' (fun kind => parts.flatMap (· kind)) ∧
      ∀ kind, (api.slots kind waitSet').length ≤ api.capacity kind waitSet' := by
  induction waitables generalizing waitSet with
  | nil => exact ⟨waitSet, [], rfl, .nil, .refl api waitSet, room⟩
  | cons waitable waitables ih =>
      have here : ∀ kind, (api.slots kind waitSet).length + api.numberOfReady kind waitable ≤
          api.capacity kind waitSet := fun kind =>
        (le_foldl_add (api.numberOfReady kind) waitables (Nat.le_refl _)).1.trans (room kind)
      obtain ⟨waitSet₁, part, added, grows, announced⟩ := documented.addToWaitSet waitable waitSet here
      have later : ∀ kind, waitables.foldl (fun number waitable => number + api.numberOfReady kind waitable)
          (api.slots kind waitSet₁).length ≤ api.capacity kind waitSet₁ := by
        intro kind
        rw [(grows kind).1, (grows kind).2, List.length_append]
        exact (le_foldl_add (api.numberOfReady kind) waitables
          (Nat.add_le_add_left (announced kind) _)).2.trans (room kind)
      obtain ⟨waitSet', parts, rest, announced', grows', fits⟩ := ih later
      refine ⟨waitSet', part :: parts, by rw [List.foldlM_cons, added]; exact rest, .cons announced announced', ?_, fits⟩
      exact (grows.trans grows').congr fun kind => rfl

/-- The strategy's own entries of an array. -/
def own (s : WaitingStrategy) : SlotKind → List Ptr
  | .subscription => s.subscriptionHandles
  | .guardCondition => s.guardConditions
  | .timer => s.timerHandles
  | .client => s.clientHandles
  | .service => s.serviceHandles
  | .event => []

/-- The wait set is empty, and has the sizes that the counts ask for. -/
structure Sized (api : WaitSetApi ω) (s : WaitingStrategy) (waitSet : ω) : Prop where
  empty : ∀ kind, api.slots kind waitSet = []
  subscriptions : api.capacity .subscription waitSet = s.numberOfReadySubscriptions api
  guardConditions : api.capacity .guardCondition waitSet = s.numberOfGuardConditions api
  timers : api.capacity .timer waitSet = s.numberOfReadyTimers api
  clients : api.capacity .client waitSet = s.numberOfReadyClients api
  services : api.capacity .service waitSet = s.numberOfReadyServices api
  events : api.capacity .event waitSet = s.numberOfReadyEvents api

theorem Sized.capacity {s : WaitingStrategy} {waitSet : ω} (sized : Sized api s waitSet) (kind : SlotKind) :
    api.capacity kind waitSet = s.numberOf api kind (s.own kind).length := by
  cases kind with
  | subscription => exact sized.subscriptions
  | guardCondition => exact sized.guardConditions
  | timer => exact sized.timers
  | client => exact sized.clients
  | service => exact sized.services
  | event => exact sized.events

/-- There is room for the strategy's own entries of an array that nothing was added to. -/
theorem Sized.room {s : WaitingStrategy} {waitSet waitSet₁ : ω} (sized : Sized api s waitSet)
    {more : SlotKind → List Ptr} (grows : api.Grows waitSet waitSet₁ more) {kind : SlotKind} (none_ : more kind = []) :
    (api.slots kind waitSet₁).length + (s.own kind).length ≤ api.capacity kind waitSet₁ := by
  rw [(grows kind).1, (grows kind).2, sized.empty, none_, sized.capacity, List.append_nil, List.length_nil,
    Nat.zero_add]
  exact (le_foldl_add (api.numberOfReady kind) s.waitableHandles (Nat.le_refl _)).1

/-- A wait set that holds `own` and what the waitables have put behind it: one
`add_to_wait_set` of each, in their order, none of which failed or added more than announced. -/
structure Filled (api : WaitSetApi ω) (own : SlotKind → List Ptr) (waitables : List Ptr) (filled : ω) : Prop where
  added : ∃ before, (∀ kind, api.slots kind before = own kind) ∧
    waitables.foldlM (fun waitSet waitable => api.addToWaitSet waitable waitSet) before = .ok filled
  parts : ∃ parts : List (SlotKind → List Ptr),
    List.Forall₂ (fun waitable part => ∀ kind, (part kind).length ≤ api.numberOfReady kind waitable) waitables parts ∧
      ∀ kind, api.slots kind filled = own kind ++ parts.flatMap (· kind)

/-- **With the sizes it asks for, the strategy fills the wait set**: nothing fails, the
strategy's own entries come first in each array, in the order of its vectors, every waitable
adds its own behind them, and no array grows beyond its size. -/
theorem addHandlesToWaitSet_fills (documented : api.Documented) {s : WaitingStrategy}
    (nonNull : ∀ kind, 0 ∉ s.own kind) {waitSet : ω} (sized : Sized api s waitSet) :
    ∃ waitSet', s.addHandlesToWaitSet api waitSet = .ok (true, waitSet') ∧
      Filled api s.own s.waitableHandles waitSet' ∧
      ∀ kind, (api.slots kind waitSet').length ≤ api.capacity kind waitSet := by
  obtain ⟨waitSet₁, ran₁, grows₁⟩ := addEach_fills documented (nonNull .subscription)
    (sized.room (Grows.refl api waitSet) rfl)
  obtain ⟨waitSet₂, ran₂, grows₂⟩ := addEach_fills documented (nonNull .client) (sized.room grows₁ rfl)
  have grows₂ := grows₁.trans grows₂
  obtain ⟨waitSet₃, ran₃, grows₃⟩ := addEach_fills documented (nonNull .service) (sized.room grows₂ rfl)
  have grows₃ := grows₂.trans grows₃
  obtain ⟨waitSet₄, ran₄, grows₄⟩ := addEach_fills documented (nonNull .timer) (sized.room grows₃ rfl)
  have grows₄ := grows₃.trans grows₄
  obtain ⟨waitSet₅, ran₅, grows₅⟩ := addGuardConditions_fill documented (sized.room grows₄ rfl)
  have grows₅ : api.Grows waitSet waitSet₅ s.own := (grows₄.trans grows₅).congr fun kind => by
    cases kind <;> simp [only, own]
  have room : ∀ kind, s.waitableHandles.foldl (fun number waitable => number + api.numberOfReady kind waitable)
      (api.slots kind waitSet₅).length ≤ api.capacity kind waitSet₅ := fun kind => by
    rw [(grows₅ kind).1, (grows₅ kind).2, sized.empty, List.nil_append, sized.capacity]
    exact Nat.le_refl _
  have own_ : ∀ kind, api.slots kind waitSet₅ = s.own kind := fun kind => by
    rw [(grows₅ kind).1, sized.empty, List.nil_append]
  obtain ⟨waitSet', parts, ran₆, announced, grows₆, fits⟩ := addWaitables_fill documented room
  refine ⟨waitSet', ?_, ⟨⟨waitSet₅, own_, ran₆⟩, parts, announced, fun kind => ?_⟩, fun kind => ?_⟩
  · simp only [own] at ran₁ ran₂ ran₃ ran₄ ran₅
    simp only [addHandlesToWaitSet, ran₁, ran₂, ran₃, ran₄, ran₅, Bool.not_true, Bool.false_eq_true, if_false]
    show (s.waitableHandles.foldlM (fun waitSet waitable => api.addToWaitSet waitable waitSet) waitSet₅ >>=
      fun waitSet => pure (true, waitSet)) = _
    rw [ran₆]
    rfl
  · rw [(grows₆ kind).1, own_]
  · rw [← (grows₅ kind).2, ← (grows₆ kind).2]
    exact fits kind

/-! ## Guard conditions -/

/-- A call that changes the guard conditions. -/
inductive GuardCall where
  | add (guardCondition : Ptr)
  | remove (guardCondition : Ptr)
  deriving DecidableEq

def GuardCall.guardCondition : GuardCall → Ptr
  | .add guardCondition | .remove guardCondition => guardCondition

def call (s : WaitingStrategy) : GuardCall → WaitingStrategy
  | .add guardCondition => s.addGuardCondition guardCondition
  | .remove guardCondition => s.removeGuardCondition guardCondition

theorem nodup_call {s : WaitingStrategy} (nodup : s.guardConditions.Nodup) (c : GuardCall) :
    (s.call c).guardConditions.Nodup := by
  cases c with
  | add guardCondition =>
      show (s.addGuardCondition guardCondition).guardConditions.Nodup
      unfold addGuardCondition
      split
      · exact nodup
      · rename_i absent
        refine List.nodup_append.2 ⟨nodup, List.nodup_singleton _, fun a member b new same => absent ?_⟩
        cases List.mem_singleton.1 new
        exact same ▸ member
  | remove guardCondition => exact nodup.erase _

theorem mem_call {s : WaitingStrategy} (nodup : s.guardConditions.Nodup) (c : GuardCall) (guardCondition : Ptr) :
    guardCondition ∈ (s.call c).guardConditions ↔
      c = .add guardCondition ∨ guardCondition ∈ s.guardConditions ∧ c ≠ .remove guardCondition := by
  cases c with
  | add added =>
      show guardCondition ∈ (s.addGuardCondition added).guardConditions ↔ _
      unfold addGuardCondition
      split
      · rename_i present
        simp only [GuardCall.add.injEq, ne_eq, reduceCtorEq, not_false_eq_true, and_true]
        exact ⟨Or.inr, fun either => either.elim (fun same => same ▸ present) id⟩
      · simp only [List.mem_append, List.mem_singleton, GuardCall.add.injEq, ne_eq, reduceCtorEq,
          not_false_eq_true, and_true, or_comm, eq_comm]
  | remove removed =>
      show guardCondition ∈ s.guardConditions.erase removed ↔ _
      simp only [nodup.mem_erase_iff, reduceCtorEq, false_or, ne_eq, GuardCall.remove.injEq, and_comm, eq_comm]

/-- **The guard conditions are a set**: after any calls, in any order, those whose last
call was an `add_guard_condition` have one slot each, and the others none. -/
theorem guardConditions_history (calls : List GuardCall) :
    (calls.foldl call ({} : WaitingStrategy)).guardConditions.Nodup ∧
      ∀ guardCondition, guardCondition ∈ (calls.foldl call ({} : WaitingStrategy)).guardConditions ↔
        (calls.filter (·.guardCondition = guardCondition)).getLast? = some (.add guardCondition) := by
  induction calls using List.reverseRecOn with
  | nil => exact ⟨List.nodup_nil, fun guardCondition => by simp⟩
  | append_singleton calls c ih =>
      obtain ⟨nodup, members⟩ := ih
      rw [List.foldl_append]
      refine ⟨nodup_call nodup c, fun guardCondition => (mem_call nodup c guardCondition).trans ?_⟩
      rw [members, List.filter_append]
      by_cases here : c.guardCondition = guardCondition
      · subst here
        cases c <;> simp [GuardCall.guardCondition]
      · have add_ : c ≠ .add guardCondition := fun same => here (by rw [same]; rfl)
        have remove_ : c ≠ .remove guardCondition := fun same => here (by rw [same]; rfl)
        simp [here, add_, remove_]

end WaitingStrategy

/-! ## One wait for work -/

open MemoryStrategy

/-- What `rcl_wait` leaves of an array: the entries that are ready, and null for the
others. -/
def LeavesReady (ready : Ptr → Prop) (slots array : List Ptr) : Prop :=
  ∀ (i : Nat) handle, slots[i]? = some handle →
    ∃ slot, array[i]? = some slot ∧ (ready handle → slot = handle) ∧ (¬ ready handle → slot = 0)

section LeavesReady

variable {ready : Ptr → Prop} {handles more array : List Ptr}

theorem LeavesReady.answers (leaves : LeavesReady ready (handles ++ more) array) : Answers array handles := by
  intro i handle at_
  obtain ⟨slot, atSlot, kept, reset⟩ := leaves i handle
    ((List.getElem?_append_left (List.getElem?_eq_some_iff.1 at_).1).trans at_)
  by_cases isReady : ready handle
  · exact ⟨slot, atSlot, Or.inr (kept isReady)⟩
  · exact ⟨slot, atSlot, Or.inl (reset isReady)⟩

/-- For a handle of the vector the slots tell whether it is ready. -/
theorem LeavesReady.leftNonNull_iff (leaves : LeavesReady ready (handles ++ more) array) {handle : Ptr}
    (member : handle ∈ handles) (nonNull : handle ≠ 0) : LeftNonNull array handles handle ↔ ready handle := by
  have slot_ : ∀ i : Nat, handles[i]? = some handle →
      ∃ slot, array[i]? = some slot ∧ (ready handle → slot = handle) ∧ (¬ ready handle → slot = 0) :=
    fun i at_ => leaves i handle ((List.getElem?_append_left (List.getElem?_eq_some_iff.1 at_).1).trans at_)
  constructor
  · rintro ⟨i, slot, at_, atSlot, isLeft⟩
    obtain ⟨slot', atSlot', -, reset⟩ := slot_ i at_
    cases atSlot.symm.trans atSlot'
    by_contra notReady
    exact isLeft (reset notReady)
  · intro isReady
    obtain ⟨i, at_⟩ := List.getElem?_of_mem member
    obtain ⟨slot, atSlot, kept, -⟩ := slot_ i at_
    exact ⟨i, slot, at_, atSlot, (kept isReady).symm ▸ nonNull⟩

end LeavesReady

/-- The strategy with the collected handles, and any guard conditions. -/
def waiting (handleOf : CallbackEntity → Ptr) (weakGroupsToNodes : WeakCallbackGroupsToNodesMap)
    (guardConditions : List Ptr) : WaitingStrategy :=
  { toMemoryStrategy := collected handleOf weakGroupsToNodes, guardConditions }

/-- The wait leaves what is ready of the filled arrays. -/
structure WaitLeaves {ω : Type} (api : WaitSetApi ω) (ready : SlotKind → Ptr → Prop) (filled : ω)
    (waitSet : WaitSet) : Prop where
  subscriptions : LeavesReady (ready .subscription) (api.slots .subscription filled) waitSet.subscriptions
  services : LeavesReady (ready .service) (api.slots .service filled) waitSet.services
  clients : LeavesReady (ready .client) (api.slots .client filled) waitSet.clients
  timers : LeavesReady (ready .timer) (api.slots .timer filled) waitSet.timers

/-- What the strategy itself has to put into each array: the handles of the found entities and
the guard conditions. -/
def ownHandles (handleOf : CallbackEntity → Ptr) (weakGroupsToNodes : WeakCallbackGroupsToNodesMap)
    (guardConditions : List Ptr) : SlotKind → List Ptr
  | .subscription => foundHandles handleOf weakGroupsToNodes .subscription
  | .guardCondition => guardConditions
  | .timer => foundHandles handleOf weakGroupsToNodes .timer
  | .client => foundHandles handleOf weakGroupsToNodes .client
  | .service => foundHandles handleOf weakGroupsToNodes .service
  | .event => []

theorem own_waiting (handleOf : CallbackEntity → Ptr) (weakGroupsToNodes : WeakCallbackGroupsToNodesMap)
    (guardConditions : List Ptr) :
    (waiting handleOf weakGroupsToNodes guardConditions).own = ownHandles handleOf weakGroupsToNodes guardConditions := by
  funext kind
  rw [waiting, collected_eq]
  cases kind <;> rfl

/-- A found entity has its handle in the vector, so its slots say whether it is ready. -/
theorem LeavesReady.found_iff {ready : Ptr → Prop} {more array : List Ptr}
    {handleOf : CallbackEntity → Ptr} {weakGroupsToNodes : WeakCallbackGroupsToNodesMap} {type : CallbackEntityType}
    (leaves : LeavesReady ready (foundHandles handleOf weakGroupsToNodes type ++ more) array)
    (nonNull : ∀ entity, FoundIn weakGroupsToNodes entity → handleOf entity ≠ 0) (ptr : Ptr) :
    FoundIn weakGroupsToNodes ⟨type, ptr⟩ ∧
        LeftNonNull array (foundHandles handleOf weakGroupsToNodes type) (handleOf ⟨type, ptr⟩) ↔
      FoundIn weakGroupsToNodes ⟨type, ptr⟩ ∧ ready (handleOf ⟨type, ptr⟩) :=
  and_congr_right fun found => leaves.leftNonNull_iff (mem_foundHandles.2 ⟨ptr, found, rfl⟩) (nonNull _ found)

/-- **A wait for work reports exactly what is ready.**  From the groups over the wait set,
filled with the sizes the strategy asks for, and the wait to `take_ready_handles`:
nothing fails or is read out of bounds, whatever the waitables add.  The filled wait set has
the handles of all found subscriptions, timers, clients and services, and all the guard
conditions, each in its array, and behind them what every found waitable has added; and a
subscription or timer is reported, and then once, exactly if a live takeable group with a live
node has it and its handle is ready. -/
theorem wait_for_work_reports {ω : Type} {api : WaitSetApi ω} (documented : api.Documented)
    {handleOf : CallbackEntity → Ptr} {weakGroupsToNodes : WeakCallbackGroupsToNodesMap}
    (distinct : DistinctHandles handleOf weakGroupsToNodes)
    (nonNull : ∀ entity, FoundIn weakGroupsToNodes entity → handleOf entity ≠ 0) {guardConditions : List Ptr}
    (noNullGuard : 0 ∉ guardConditions) {waitSet : ω}
    (sized : WaitingStrategy.Sized api (waiting handleOf weakGroupsToNodes guardConditions) waitSet)
    (isReady : WaitSet → Ptr → Bool) (s : MemoryStrategy) :
    ∃ filled, (waiting handleOf weakGroupsToNodes guardConditions).addHandlesToWaitSet api waitSet =
        .ok (true, filled) ∧
      WaitingStrategy.Filled api (ownHandles handleOf weakGroupsToNodes guardConditions)
        (ptrsOf .waitable (weakGroupsToNodes.flatMap WeakGroupEntry.found)) filled ∧
      ∀ ready waitSet', WaitLeaves api ready filled waitSet' →
        ∃ s' reported, s.waitCycle handleOf isReady weakGroupsToNodes waitSet' = .ok (s', reported) ∧
          reported.readySubscriptions.Nodup ∧ reported.readyTimers.Nodup ∧
          (∀ ptr, ptr ∈ reported.readySubscriptions ↔ FoundIn weakGroupsToNodes ⟨.subscription, ptr⟩ ∧
            ready .subscription (handleOf ⟨.subscription, ptr⟩)) ∧
          ∀ ptr, ptr ∈ reported.readyTimers ↔ FoundIn weakGroupsToNodes ⟨.timer, ptr⟩ ∧
            ready .timer (handleOf ⟨.timer, ptr⟩) := by
  have noNull : ∀ type, 0 ∉ foundHandles handleOf weakGroupsToNodes type := fun type null => by
    obtain ⟨ptr, found, same⟩ := mem_foundHandles.1 null
    exact nonNull _ found same
  have own : ∀ kind, 0 ∉ (waiting handleOf weakGroupsToNodes guardConditions).own kind := fun kind => by
    rw [own_waiting]
    cases kind with
    | guardCondition => exact noNullGuard
    | event => exact List.not_mem_nil
    | _ => exact noNull _
  obtain ⟨filled, ran, fills, -⟩ := WaitingStrategy.addHandlesToWaitSet_fills documented own sized
  rw [own_waiting, show (waiting handleOf weakGroupsToNodes guardConditions).waitableHandles = _ from
    congrArg (·.waitableHandles) (collected_eq handleOf weakGroupsToNodes)] at fills
  refine ⟨filled, ran, fills, fun ready waitSet' waited => ?_⟩
  -- slot i of each array belongs to handle i
  obtain ⟨parts, -, slots⟩ := fills.parts
  obtain ⟨subscriptions, services, clients, timers⟩ := waited
  rw [slots] at subscriptions services clients timers
  have answered : WaitedFor waitSet' (collected handleOf weakGroupsToNodes) := by
    rw [collected_eq]
    exact ⟨subscriptions.answers, services.answers, clients.answers, timers.answers⟩
  obtain ⟨kept, cycle, ⟨noNull, survived⟩, noNullTimer, survivedTimers⟩ := waitCycle_ok isReady s answered
  rw [collected_eq] at survived survivedTimers
  obtain ⟨nodup, members⟩ := taken_reports distinct .subscription noNull survived
  obtain ⟨nodupTimers, membersTimers⟩ := taken_reports distinct .timer noNullTimer survivedTimers
  exact ⟨_, _, cycle, nodup, nodupTimers, fun ptr => (members ptr).trans (subscriptions.found_iff nonNull ptr),
    fun ptr => (membersTimers ptr).trans (timers.found_iff nonNull ptr)⟩

/-! ### A wait -/

/-- A wait set with sizes and entries. -/
structure SampleWaitSet where
  size : SlotKind → Nat
  entries : SlotKind → List Ptr := fun _ => []

def SampleWaitSet.push (waitSet : SampleWaitSet) (kind : SlotKind) (handle : Ptr) : Option SampleWaitSet :=
  if (waitSet.entries kind).length < waitSet.size kind then
    some { waitSet with entries := Function.update waitSet.entries kind (waitSet.entries kind ++ [handle]) }
  else none

/-- Every waitable has one guard condition, itself. -/
def sampleApi : WaitSetApi SampleWaitSet where
  capacity kind waitSet := waitSet.size kind
  slots kind waitSet := waitSet.entries kind
  add kind waitSet handle := if handle = 0 then none else waitSet.push kind handle
  addGuardCondition waitSet guardCondition :=
    (waitSet.push .guardCondition guardCondition).elim (.error .middleware) .ok
  addToWaitSet waitable waitSet := (waitSet.push .guardCondition waitable).elim (.error .middleware) .ok
  numberOfReady kind _ := if kind = .guardCondition then 1 else 0

theorem SampleWaitSet.push_room {waitSet : SampleWaitSet} {kind : SlotKind}
    (room : (waitSet.entries kind).length < waitSet.size kind) (handle : Ptr) :
    ∃ waitSet', waitSet.push kind handle = some waitSet' ∧
      sampleApi.Grows waitSet waitSet' (WaitSetApi.only kind [handle]) := by
  refine ⟨_, if_pos room, fun kind' => ⟨?_, rfl⟩⟩
  show Function.update waitSet.entries kind _ kind' = waitSet.entries kind' ++ WaitSetApi.only kind [handle] kind'
  unfold WaitSetApi.only
  by_cases same : kind' = kind
  · subst same
    rw [Function.update_self, if_pos rfl]
  · rw [Function.update_of_ne same, if_neg same, List.append_nil]

theorem sampleApi_documented : sampleApi.Documented where
  add kind waitSet handle nonNull room := by
    obtain ⟨waitSet', pushed, grows⟩ := SampleWaitSet.push_room room handle
    exact ⟨waitSet', (if_neg nonNull).trans pushed, grows⟩
  addGuardCondition waitSet guardCondition room := by
    obtain ⟨waitSet', pushed, grows⟩ := SampleWaitSet.push_room room guardCondition
    refine ⟨waitSet', ?_, grows⟩
    show (waitSet.push .guardCondition guardCondition).elim _ _ = _
    rw [pushed]
    rfl
  addToWaitSet waitable waitSet room := by
    obtain ⟨waitSet', pushed, grows⟩ := SampleWaitSet.push_room (room .guardCondition) waitable
    refine ⟨waitSet', _, ?_, grows, fun kind => ?_⟩
    · show (waitSet.push .guardCondition waitable).elim _ _ = _
      rw [pushed]
      rfl
    · cases kind <;> exact Nat.le_refl _

/-- Room for a subscription and a timer, and for the guard conditions of the strategy and of a
waitable. -/
def sampleSlots : SampleWaitSet where
  size kind := if kind = .guardCondition then 2 else if kind = .subscription ∨ kind = .timer then 1 else 0

/-- The groups of a cycle, with a waitable. -/
def sampleWaitables : WeakCallbackGroupsToNodesMap :=
  ⟨some { sampleGroup with ptr := 3, subscriptions := [], timers := [], waitables := [41] }, some 100⟩ ::
    sampleWaitGroups

/-- The subscription of the sample is ready, its timer is not; the guard condition 9 and the
waitable are waited for. -/
theorem wait_for_work_reports_sample :
    ∃ filled, (waiting (fun entity => 1000 + entity.rawPointer) sampleWaitables [9]).addHandlesToWaitSet sampleApi
        sampleSlots = .ok (true, filled) ∧
      WaitingStrategy.Filled sampleApi (ownHandles (fun entity => 1000 + entity.rawPointer) sampleWaitables [9]) [41]
        filled ∧
      filled.entries .guardCondition = [9, 41] ∧
      ∃ s' reported, ({} : MemoryStrategy).waitCycle (fun entity => 1000 + entity.rawPointer) (fun _ _ => false)
          sampleWaitables ⟨[1011], [], [], [0]⟩ = .ok (s', reported) ∧
        11 ∈ reported.readySubscriptions ∧ 12 ∉ reported.readyTimers := by
  obtain ⟨filled, ran, fills, reports⟩ := @wait_for_work_reports SampleWaitSet sampleApi sampleApi_documented
    (fun entity => 1000 + entity.rawPointer) sampleWaitables (fun _ _ _ _ _ same => Nat.add_left_cancel same)
    (fun _ _ => Nat.ne_of_gt (Nat.add_pos_left (by decide) _)) [9] (by decide) sampleSlots
    ⟨fun _ => rfl, rfl, rfl, rfl, rfl, rfl, rfl⟩ (fun _ _ => false) {}
  have values : ((waiting (fun entity => 1000 + entity.rawPointer) sampleWaitables [9]).addHandlesToWaitSet
      sampleApi sampleSlots).toOption.map (fun result => (result.2.entries .subscription, result.2.entries .service,
        result.2.entries .client, result.2.entries .timer, result.2.entries .guardCondition)) =
      some ([1011], [], [], [1012], [9, 41]) := by decide
  rw [ran] at values
  simp only [Except.toOption, Option.map_some, Option.some.injEq, Prod.mk.injEq] at values
  obtain ⟨subscription, service, client, timer, guardCondition⟩ := values
  have leaves : WaitLeaves sampleApi (fun kind _ => kind = .subscription) filled ⟨[1011], [], [], [0]⟩ := by
    refine ⟨?_, ?_, ?_, ?_⟩ <;> intro i handle at_
    · exact ⟨handle, subscription ▸ at_, fun _ => rfl, fun notReady => absurd rfl notReady⟩
    · rw [show sampleApi.slots .service filled = [] from service] at at_
      cases at_
    · rw [show sampleApi.slots .client filled = [] from client] at at_
      cases at_
    · rw [show sampleApi.slots .timer filled = [1012] from timer] at at_
      cases i with
      | zero => exact ⟨0, rfl, nofun, fun _ => rfl⟩
      | succ i => cases at_
  obtain ⟨s', reported, cycle, -, -, subscriptions, timers⟩ := reports _ _ leaves
  have found : FoundIn sampleWaitables ⟨.subscription, 11⟩ :=
    ⟨sampleGroup, 100, List.mem_cons_of_mem _ List.mem_cons_self, rfl, by decide⟩
  exact ⟨filled, ran, fills, guardCondition, s', reported, cycle, (subscriptions 11).2 ⟨found, rfl⟩,
    fun member => nomatch ((timers 12).1 member).2⟩

end PreemptiveExecutor
