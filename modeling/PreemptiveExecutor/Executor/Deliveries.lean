/-
# Executor.Deliveries — handler calls against the takes that delivered a message

`try_take` throws away whether a message was taken, so each `take_and_bundle` goes
by the message pointer of its bundle.  For a loaned message that pointer,
`loaned_msg`, is never initialised and only a take sets it: `rcl` leaves a null pointer
null when nothing is taken, and answers any other one with `RCLInvalidArgument`, which
`try_take` does not catch (`Take.otherException`).  For a type-erased or serialized
subscription the pointer is filled by `create_message` before the take, and a take that
fails leaves it as it is: the bundle goes to a worker, and `run` calls the handler with a
message that was never received.

Along a run that logs its takes (`ExecutorState.takeSystem`), the handler of a
subscription is called at most as often as its takes delivered, if every take that
does not deliver leaves the message pointer of its kind null.
-/
import Mathlib.Algebra.BigOperators.Group.Finset.Piecewise
import Mathlib.Algebra.Order.BigOperators.Group.Finset
import PreemptiveExecutor.Executor.Dispatch
import PreemptiveExecutor.Executor.MutualExclusion

namespace PreemptiveExecutor

open Theory

set_option autoImplicit false

/-! ## One take -/

namespace ReadySubscription

/-- The take delivered a message. -/
def delivers (subscription : ReadySubscription) : Bool := subscription.take = .taken

/-- The message pointer that `take_and_bundle` looks at. -/
def messageOfKind (subscription : ReadySubscription) : Ptr :=
  if !subscription.isSerialized then
    if subscription.canLoanMessages then subscription.loanedMsg else subscription.message
  else subscription.serializedMsg

/-- A take that ends without a message, also by an `RCLError`, leaves the pointer
null.  After any other exception nothing looks at it. -/
def NullUnlessDelivered (subscription : ReadySubscription) : Prop :=
  subscription.take = .taken ∨ subscription.take = .otherException ∨ subscription.messageOfKind = 0

theorem takeAndBundle_eq (subscription : ReadySubscription) :
    ∃ make : Ptr → BundledExecutable,
      subscription.takeAndBundle = tryTake subscription.take subscription.messageOfKind make := by
  unfold takeAndBundle messageOfKind takeLoanedMsg takeGenericMsg takeSerializedMsg
  cases subscription.isSerialized with
  | false =>
      cases subscription.canLoanMessages with
      | false => exact ⟨_, rfl⟩
      | true => exact ⟨_, rfl⟩
  | true => exact ⟨_, rfl⟩

/-- **A bundle comes only from a take that delivered**, exactly if the take is null
unless it delivered. -/
theorem bundled_delivers_iff (subscription : ReadySubscription) :
    (∀ bundle, subscription.takeAndBundle = .ok (some bundle) → subscription.delivers = true) ↔
      subscription.NullUnlessDelivered := by
  obtain ⟨make, took⟩ := subscription.takeAndBundle_eq
  unfold NullUnlessDelivered delivers
  rw [took]
  unfold tryTake
  by_cases threw : subscription.take = .otherException
  · simp [threw]
  · by_cases null : subscription.messageOfKind = 0
    · simp [threw, null]
    · simp [threw, null]

end ReadySubscription

/-- A bundle that holds a message of the subscription. -/
def BundledExecutable.isMessageOf (ptr : Ptr) : BundledExecutable → Bool
  | .bundledTimer _ => false
  | bundle => bundle.getRawHandle = ptr

/-- The takes a call makes: the last one is the first that throws. -/
def takesMade : List ReadySubscription → List ReadySubscription
  | [] => []
  | subscription :: rest =>
      if subscription.take = .otherException then [subscription] else subscription :: takesMade rest

theorem takesMade_of_ok {subscriptions : List ReadySubscription}
    (returns : ∀ subscription ∈ subscriptions, subscription.take ≠ .otherException) :
    takesMade subscriptions = subscriptions := by
  induction subscriptions with
  | nil => rfl
  | cons subscription rest ih =>
      obtain ⟨here, later⟩ := List.forall_mem_cons.1 returns
      rw [takesMade, if_neg here, ih later]

/-- The takes of the subscription that delivered a message. -/
def deliveries (ptr : Ptr) (takes : List ReadySubscription) : Nat :=
  takes.countP fun subscription => decide (subscription.ptr = ptr) && subscription.delivers

theorem countP_taken_subscription_le {subscription : ReadySubscription} (ptr : Ptr)
    (meets : subscription.NullUnlessDelivered) :
    subscription.taken.countP (·.isMessageOf ptr) ≤
      if (decide (subscription.ptr = ptr) && subscription.delivers) = true then 1 else 0 := by
  unfold ReadySubscription.taken
  cases took : subscription.takeAndBundle with
  | error error => exact Nat.zero_le _
  | ok bundle =>
      cases bundle with
      | none => exact Nat.zero_le _
      | some bundle =>
          have own := ReadySubscription.takeAndBundle_getRawHandle took
          have delivered := subscription.bundled_delivers_iff.2 meets bundle took
          by_cases same : subscription.ptr = ptr
          · rw [if_pos (by simp [same, delivered])]
            exact List.countP_le_length
          · have other : bundle.isMessageOf ptr = false := by
              cases bundle <;> simp_all [BundledExecutable.isMessageOf, BundledExecutable.getRawHandle]
            simp [other]

/-- The messages a call bundles are among the delivered ones. -/
theorem countP_taken_le {ready : ReadyHandles} (ptr : Ptr)
    (meets : ∀ subscription ∈ ready.subscriptions, subscription.NullUnlessDelivered) :
    ready.taken.countP (·.isMessageOf ptr) ≤ deliveries ptr ready.subscriptions := by
  have noTimers : (ready.timers.flatMap ReadyTimer.taken).countP (·.isMessageOf ptr) = 0 := by
    refine List.countP_eq_zero.2 fun bundle member => ?_
    obtain ⟨timer, -, took⟩ := List.mem_flatMap.1 member
    unfold ReadyTimer.taken ReadyTimer.takeAndBundle at took
    cases fired : timer.call with
    | false => simp [fired] at took
    | true =>
        simp only [fired] at took
        obtain rfl := List.mem_singleton.1 took
        exact Bool.false_ne_true
  have messages : ∀ subscriptions : List ReadySubscription,
      (∀ subscription ∈ subscriptions, subscription.NullUnlessDelivered) →
      (subscriptions.flatMap ReadySubscription.taken).countP (·.isMessageOf ptr) ≤
        deliveries ptr subscriptions := by
    intro subscriptions
    unfold deliveries
    induction subscriptions with
    | nil => intro _; exact Nat.le_refl 0
    | cons subscription rest ih =>
        intro meets
        obtain ⟨here, later⟩ := List.forall_mem_cons.1 meets
        rw [List.flatMap_cons, List.countP_append, List.countP_cons, Nat.add_comm]
        exact Nat.add_le_add (ih later) (countP_taken_subscription_le ptr here)
  rw [ReadyHandles.taken, List.countP_append, noTimers, Nat.add_zero]
  exact messages _ meets

/-! ## What a step does with the bundles -/

namespace WorkerGroup

/-- What has been started was enqueued. -/
theorem countP_started_le {β : Type} {g : WorkerGroup β} (conserved : Conserved g) (q : β → Bool) :
    g.started.countP q ≤ g.enqueued.countP q := by
  have inside : (g.threads.filterMap Worker.inRun).Sublist (g.threads.filterMap Worker.holding) := by
    induction g.threads with
    | nil => exact List.Sublist.refl _
    | cons w threads ih =>
        rw [List.filterMap_cons, List.filterMap_cons]
        cases w with
        | dequeued exec =>
            cases exec with
            | none => exact ih
            | some exec => exact ih.cons exec
        | running exec => exact ih.cons_cons exec
        | _ => exact ih
  have started : g.started.countP q =
      (g.threads.filterMap Worker.inRun).countP q + g.finished.countP q := by
    simpa using congrArg (Multiset.countP (q · = true)) conserved.runs
  have enqueued : g.enqueued.countP q =
      g.queued.countP q + (g.beingRun.countP q + g.finished.countP q) := by
    simpa using congrArg (Multiset.countP (q · = true)) conserved.bundles
  have le : (g.threads.filterMap Worker.inRun).countP q ≤ g.beingRun.countP q := inside.countP_le
  omega

end WorkerGroup

/-- Everything a step can do to the bundles: a call of `populate_ready_queues` takes
some, a batch is handed over, or some that were collected are lost. -/
inductive BundleFlow (e : ExecutorState) (s s' : RunningExecutor) : SystemLabel → Prop where
  | populate {ready : ReadyHandles} {choices : DispatchChoices} (idle : s.cycle = .idle)
      (some_ : e.threadGroupIdWorkerMap.keys.isEmpty = false) (groups : s'.groups = s.groups)
      (collects : s'.cycle.pending = [] ∨
        ∃ c, collectBundles e.callbackHandleToThreadgroupId ready = .ok c ∧ s'.cycle.pending =
          (choices.order c.bundlesByTgid).entries.map fun pair => (pair.1, pair.2)) :
      BundleFlow e s s' (.populate ready choices)
  | hand {enqueueOk : Bool} {tgid : Nat} {bundles : List BundledExecutable}
      {g g' : WorkerGroup BundledExecutable} (pending : s.cycle.pending = (tgid, bundles) :: s'.cycle.pending)
      (at_ : s.groups tgid = some g) (groups : s'.groups = Function.update s.groups tgid (some g'))
      (handed : g'.enqueued = g.enqueued ++ bundles) : BundleFlow e s s' (.nextBatch enqueueOk)
  | other {label : SystemLabel} (quiet : ∀ ready choices, label = .populate ready choices →
        e.threadGroupIdWorkerMap.keys.isEmpty = true)
      (groups : ∀ id, (s'.groups id).map WorkerGroup.enqueued = (s.groups id).map WorkerGroup.enqueued)
      (pending : s'.cycle.pending <:+ s.cycle.pending) : BundleFlow e s s' label

theorem stepGroup_enqueued {s s' : RunningExecutor} {tgid : Nat} {label : WorkerGroup.Label BundledExecutable}
    (stepped : s.stepGroup tgid label = some s') (quiet : ∀ bundles, label ≠ .enqueueBulk bundles) :
    (∀ id, (s'.groups id).map WorkerGroup.enqueued = (s.groups id).map WorkerGroup.enqueued) ∧
      s'.cycle = s.cycle := by
  obtain ⟨g, g', at_, stepped', rfl⟩ := stepGroup_cases stepped
  refine ⟨fun id => ?_, rfl⟩
  by_cases same : id = tgid
  · subst same
    have kept := WorkerGroup.step_enqueued stepped'
    show (Function.update s.groups id (some g') id).map _ = _
    rw [Function.update_self, at_]
    cases label with
    | enqueueBulk bundles => exact absurd rfl (quiet bundles)
    | _ => simpa using kept
  · show (Function.update s.groups tgid (some g') id).map _ = _
    rw [Function.update_of_ne same]

theorem stepAll_enqueued (s : RunningExecutor) {label : WorkerGroup.Label BundledExecutable}
    (quiet : ∀ bundles, label ≠ .enqueueBulk bundles) (id : Nat) :
    ((s.stepAll label).groups id).map WorkerGroup.enqueued = (s.groups id).map WorkerGroup.enqueued := by
  show ((s.groups id).map fun g => (g.step label).getD g).map WorkerGroup.enqueued = _
  cases s.groups id with
  | none => rfl
  | some g =>
      cases stepped : g.step label with
      | none => simp [stepped]
      | some g' =>
          have kept := WorkerGroup.step_enqueued stepped
          cases label with
          | enqueueBulk bundles => exact absurd rfl (quiet bundles)
          | _ => simpa [stepped] using kept

theorem systemStep_flow {e : ExecutorState} {s s' : RunningExecutor} {label : SystemLabel}
    (stepped : e.systemStep s label = some s') : BundleFlow e s s' label := by
  cases systemStep_cases stepped with
  | nobody idle nobody => exact .other (fun _ _ _ => nobody) (fun _ => rfl) (List.suffix_refl _)
  | threw idle somebody collects => exact .populate idle somebody rfl (Or.inl rfl)
  | collected idle somebody collects => exact .populate idle somebody rfl (Or.inr ⟨_, collects, rfl⟩)
  | passed pending => exact .other (by rintro _ _ ⟨⟩) (fun _ => rfl) pending
  | handed at_ moved =>
      obtain ⟨g, g', found, stepped', rfl⟩ := stepGroup_cases moved
      exact .hand (by rw [at_]; rfl) found rfl (WorkerGroup.step_enqueued stepped')
  | moved elsewhere quiet moved pending =>
      exact .other (fun ready choices same => absurd same (elsewhere ready choices))
        (stepGroup_enqueued moved quiet).1 pending
  | all elsewhere quiet =>
      exact .other (fun ready choices same => absurd same (elsewhere ready choices))
        (stepAll_enqueued s quiet) (List.suffix_refl _)

/-! ## Counting over the worker groups -/

/-- What some count comes to over all worker groups. -/
def RunningExecutor.sumGroups (s : RunningExecutor) (e : ExecutorState)
    (count : WorkerGroup BundledExecutable → Nat) : Nat :=
  ∑ id ∈ e.threadGroupIdWorkerMap.keys.toFinset, (s.groups id).elim 0 count

/-- The calls of the subscription's handler by `run`. -/
def RunningExecutor.handlerCalls (s : RunningExecutor) (e : ExecutorState) (ptr : Ptr) : Nat :=
  s.sumGroups e fun g => g.started.countP (·.isMessageOf ptr)

def RunningExecutor.enqueuedMessages (s : RunningExecutor) (e : ExecutorState) (ptr : Ptr) : Nat :=
  s.sumGroups e fun g => g.enqueued.countP (·.isMessageOf ptr)

/-- The messages collected and not handed over. -/
def Cycle.pendingMessages (cycle : Cycle) (ptr : Ptr) : Nat :=
  (cycle.pending.map fun batch => batch.2.countP (·.isMessageOf ptr)).sum

section Sums

variable {e : ExecutorState} {s s' : RunningExecutor} {count : WorkerGroup BundledExecutable → Nat}

theorem sumGroups_congr (same : ∀ id, (s'.groups id).elim 0 count = (s.groups id).elim 0 count) :
    s'.sumGroups e count = s.sumGroups e count :=
  Finset.sum_congr rfl fun id _ => same id

/-- One worker group is replaced or gone. -/
theorem sumGroups_update {tgid : Nat} {after : Option (WorkerGroup BundledExecutable)}
    (present : tgid ∈ e.threadGroupIdWorkerMap) (groups : s'.groups = Function.update s.groups tgid after)
    (count : WorkerGroup BundledExecutable → Nat) :
    s'.sumGroups e count + (s.groups tgid).elim 0 count = s.sumGroups e count + after.elim 0 count := by
  have inKeys := List.mem_toFinset.2 (AList.mem_keys.1 present)
  unfold RunningExecutor.sumGroups
  rw [← Finset.add_sum_erase _ _ inKeys, ← Finset.add_sum_erase _ (fun id => (s.groups id).elim 0 count) inKeys,
    groups, Function.update_self]
  have others : ∀ id ∈ e.threadGroupIdWorkerMap.keys.toFinset.erase tgid,
      (Function.update s.groups tgid after id).elim 0 count = (s.groups id).elim 0 count := by
    intro id member
    rw [Function.update_of_ne (Finset.ne_of_mem_erase member)]
  rw [Finset.sum_congr rfl others]
  omega

/-- One worker group counts for more. -/
theorem sumGroups_hand {tgid : Nat} {g g' : WorkerGroup BundledExecutable} {more : Nat}
    (present : tgid ∈ e.threadGroupIdWorkerMap) (at_ : s.groups tgid = some g)
    (groups : s'.groups = Function.update s.groups tgid (some g')) (counts : count g' = count g + more) :
    s'.sumGroups e count = s.sumGroups e count + more := by
  have moved := sumGroups_update present groups count
  rw [at_] at moved
  simp only [Option.elim_some, counts] at moved
  omega

/-- A count that is 0 for every group that is spawned. -/
theorem sumGroups_running {final : CallbackRegistry} {timing : TimingExport}
    (started : ExecutorState.Started e final timing)
    (fresh : ∀ threadGroup, count (ExecutorState.spawnWorkerGroup threadGroup) = 0) :
    e.running.sumGroups e count = 0 := by
  refine Finset.sum_eq_zero fun id _ => ?_
  show (e.threadGroupIdWorkerMap.lookup id).elim 0 _ = 0
  rw [started.workers]
  cases timing.threadgroupAttributes.lookup id with
  | none => rfl
  | some threadGroup => exact fresh threadGroup

end Sums

/-- One key is met at most once among different ones. -/
theorem sum_indicator_le {κ : Type} [DecidableEq κ] (key : Option κ) {ks : List κ} (distinct : ks.Nodup) :
    (ks.map fun k => if key = some k then 1 else 0).sum ≤ 1 := by
  induction ks with
  | nil => exact Nat.zero_le 1
  | cons k ks ih =>
      obtain ⟨fresh, distinct⟩ := List.nodup_cons.1 distinct
      rw [List.map_cons, List.sum_cons]
      by_cases here : key = some k
      · have none_ : (ks.map fun k' => if key = some k' then 1 else 0).sum = 0 := by
          refine List.sum_eq_zero fun n member => ?_
          obtain ⟨k', inKs, rfl⟩ := List.mem_map.1 member
          rw [if_neg]
          rintro there
          rw [here] at there
          exact fresh (Option.some.inj there ▸ inKs)
        rw [if_pos here, none_]
      · rw [if_neg here, Nat.zero_add]
        exact ih distinct

/-- A list dealt out by key has nothing more in all its parts than in itself. -/
theorem sum_countP_filter_le {α κ : Type} [DecidableEq κ] (key : α → Option κ) (q : α → Bool) {ks : List κ}
    (distinct : ks.Nodup) (items : List α) :
    (ks.map fun k => (items.filter fun item => key item = some k).countP q).sum ≤ items.countP q := by
  induction items with
  | nil => simp
  | cons item items ih =>
      have term : ∀ k, ((item :: items).filter fun item => key item = some k).countP q =
          (items.filter fun item => key item = some k).countP q +
            if q item = true then if key item = some k then 1 else 0 else 0 := by
        intro k
        by_cases here : key item = some k
        · simp [here, List.countP_cons]
        · simp [here]
      simp only [term]
      rw [List.sum_map_add, List.countP_cons]
      apply Nat.add_le_add ih
      by_cases counted : q item = true
      · simp only [counted, ↓reduceIte]
        exact sum_indicator_le (key item) distinct
      · simp [counted]

theorem pendingMessages_collected {handles : UnorderedMap Ptr Nat} {ready : ReadyHandles} {c : Collected}
    (choices : DispatchChoices) (ptr : Ptr) (collect : collectBundles (some handles) ready = .ok c) :
    (((choices.order c.bundlesByTgid).entries.map fun pair => (pair.1, pair.2)).map
        fun batch => batch.2.countP (·.isMessageOf ptr)).sum ≤ ready.taken.countP (·.isMessageOf ptr) := by
  have parts : (((choices.order c.bundlesByTgid).entries.map fun pair => (pair.1, pair.2)).map
      fun batch => batch.2.countP (·.isMessageOf ptr)) =
      (choices.order c.bundlesByTgid).keys.map fun id =>
        (ready.taken.filter fun bundle => handles.lookup bundle.getRawHandle = some id).countP
          (·.isMessageOf ptr) := by
    rw [List.map_map]
    exact map_ordered collect choices (List.countP (·.isMessageOf ptr))
  rw [parts]
  exact sum_countP_filter_le _ _ (choices.order c.bundlesByTgid).nodupKeys _

/-! ## Runs -/

namespace ExecutorState

/-- The takes that a step makes. -/
def takesOf (e : ExecutorState) (s : RunningExecutor) : SystemLabel → List ReadySubscription
  | .populate ready _ =>
      match s.cycle with
      | .idle => if e.threadGroupIdWorkerMap.keys.isEmpty then [] else takesMade ready.subscriptions
      | _ => []
  | _ => []

/-- The running executor with a log of its takes. -/
def takeSystem (e : ExecutorState) : Transition (RunningExecutor × List ReadySubscription) SystemLabel :=
  e.system.withHistory e.takesOf

/-- In a step that takes, every take that does not deliver leaves a null pointer. -/
def TakesNullUnlessDelivered (e : ExecutorState) (p : RunningExecutor × List ReadySubscription)
    (label : SystemLabel) : Prop :=
  ∀ subscription ∈ e.takesOf p.1 label, subscription.NullUnlessDelivered

end ExecutorState

section Runs

variable {e : ExecutorState} {handles : UnorderedMap Ptr Nat}

theorem deliveries_append (ptr : Ptr) (takes more : List ReadySubscription) :
    deliveries ptr (takes ++ more) = deliveries ptr takes + deliveries ptr more :=
  List.countP_append

theorem enqueuedMessages_congr {s s' : RunningExecutor} (ptr : Ptr)
    (groups : ∀ id, (s'.groups id).map WorkerGroup.enqueued = (s.groups id).map WorkerGroup.enqueued) :
    s'.enqueuedMessages e ptr = s.enqueuedMessages e ptr := by
  refine sumGroups_congr fun id => ?_
  have same := congrArg (fun enqueued => enqueued.elim 0 (List.countP (·.isMessageOf ptr))) (groups id)
  rw [Option.elim_map, Option.elim_map] at same
  exact same

/-- The bundling loops return only if no take throws. -/
theorem take_of_collected {ready : ReadyHandles} {c : Collected}
    (collect : collectBundles (some handles) ready = .ok c) :
    ∀ subscription ∈ ready.subscriptions, subscription.take ≠ .otherException := by
  unfold collectBundles at collect
  cases first : ready.subscriptions.foldlM (collectSubscription (some handles)) {} with
  | error error => rw [first] at collect; cases collect
  | ok c₁ =>
      refine Loop.foldlM_each (fun subscription : ReadySubscription => subscription.take ≠ .otherException)
        ready.subscriptions (fun s s' subscription ran threw => ?_) first
      obtain ⟨make, took⟩ := subscription.takeAndBundle_eq
      unfold collectSubscription at ran
      rw [took, tryTake, if_pos threw] at ran
      cases ran

/-- The takes of a call whose bundling loops return are those of all that is ready. -/
theorem takesMade_of_collected {ready : ReadyHandles} {c : Collected}
    (collect : collectBundles (some handles) ready = .ok c) :
    takesMade ready.subscriptions = ready.subscriptions :=
  takesMade_of_ok (take_of_collected collect)

/-- What has been enqueued and what is about to be is not more than what was
delivered. -/
def Accounted (e : ExecutorState) (ptr : Ptr) (p : RunningExecutor × List ReadySubscription) : Prop :=
  p.1.enqueuedMessages e ptr + p.1.cycle.pendingMessages ptr ≤ deliveries ptr p.2

theorem Accounted.step {ptr : Ptr} {s s' : RunningExecutor} {log : List ReadySubscription}
    {label : SystemLabel} (isHandles : e.callbackHandleToThreadgroupId = some handles)
    (inv : SystemInv e handles s) (accounted : Accounted e ptr (s, log))
    (meets : e.TakesNullUnlessDelivered (s, log) label) (flow : BundleFlow e s s' label) :
    Accounted e ptr (s', log ++ e.takesOf s label) := by
  unfold Accounted at accounted ⊢
  simp only [deliveries_append] at accounted ⊢
  cases flow with
  | populate idle some_ groups collects =>
      rename_i ready choices
      have takes : e.takesOf s (.populate ready choices) = takesMade ready.subscriptions := by
        simp [ExecutorState.takesOf, idle, some_]
      have kept : s'.enqueuedMessages e ptr = s.enqueuedMessages e ptr :=
        enqueuedMessages_congr ptr fun id => by rw [groups]
      have pending : s'.cycle.pendingMessages ptr ≤ deliveries ptr (takesMade ready.subscriptions) := by
        unfold Cycle.pendingMessages
        rcases collects with none_ | ⟨c, collect, batches⟩
        · rw [none_]
          exact Nat.zero_le _
        · rw [isHandles] at collect
          rw [batches, takesMade_of_collected collect]
          refine Nat.le_trans (pendingMessages_collected choices ptr collect) (countP_taken_le ptr ?_)
          rw [← takesMade_of_collected collect, ← takes]
          exact meets
      rw [takes, kept]
      omega
  | hand pending at_ groups handed =>
      rename_i enqueueOk tgid bundles g g'
      have more : s'.enqueuedMessages e ptr =
          s.enqueuedMessages e ptr + bundles.countP (·.isMessageOf ptr) :=
        sumGroups_hand (inv.mem_workers at_) at_ groups (by rw [handed, List.countP_append])
      have fewer : s.cycle.pendingMessages ptr =
          bundles.countP (·.isMessageOf ptr) + s'.cycle.pendingMessages ptr := by
        unfold Cycle.pendingMessages
        rw [pending, List.map_cons, List.sum_cons]
      omega
  | other quiet groups pending =>
      have kept := enqueuedMessages_congr (e := e) ptr groups
      have fewer : s'.cycle.pendingMessages ptr ≤ s.cycle.pendingMessages ptr := by
        obtain ⟨lost, split_⟩ := pending
        unfold Cycle.pendingMessages
        rw [← split_, List.map_append, List.sum_append]
        exact Nat.le_add_left _ _
      omega

theorem accounted_running {final : CallbackRegistry} {timing : TimingExport}
    (started : ExecutorState.Started e final timing) (ptr : Ptr) : Accounted e ptr (e.running, []) := by
  have none_ : e.running.enqueuedMessages e ptr = 0 := by
    refine sumGroups_running started fun threadGroup => ?_
    rw [ExecutorState.spawnWorkerGroup_eq]
    rfl
  unfold Accounted
  rw [none_]
  exact Nat.le_refl 0

end Runs

/-- **Every executed subscription callback has a message**, if the takes that do not
deliver leave null pointers: for one take that is exactly when a bundle comes only
from a delivered message; and along every run of the dispatcher and the workers all
of whose takes are like that, no handler is called more often than the takes of its
subscription delivered a message. -/
theorem handlerCalls_le_deliveries {env : Environment} {singleton : Option CallbackRegistry}
    {userChains : List UserChain} {pending weakGroupsToNodes : WeakCallbackGroupsToNodesMap}
    {e : ExecutorState} {registry' : CallbackRegistry}
    (process : ExecutorState.Singleton env singleton pending weakGroupsToNodes)
    (started : (ExecutorState.create userChains pending).startup env singleton = .ok (e, registry')) :
    (∀ subscription : ReadySubscription,
      (∀ bundle, subscription.takeAndBundle = .ok (some bundle) → subscription.delivers = true) ↔
        subscription.NullUnlessDelivered) ∧
    ∀ s log, e.takeSystem.ReachableWhile e.TakesNullUnlessDelivered (s, log) →
      ∀ ptr, s.handlerCalls e ptr ≤ deliveries ptr log := by
  refine ⟨ReadySubscription.bundled_delivers_iff, fun s log reachable ptr => ?_⟩
  obtain ⟨preRegistered, final, timing, inStep, -⟩ := ExecutorState.startup_started process started
  obtain ⟨inv, accounted⟩ := Transition.invariant
    (fun p => SystemInv e timing.callbackHandleToThreadgroupId p.1 ∧ Accounted e ptr p)
    (fun p start => by
      obtain ⟨s, log⟩ := p
      obtain ⟨rfl, rfl⟩ := start
      exact ⟨systemInv_running inStep _, accounted_running inStep ptr⟩)
    (fun p label p' inv meets stepped => by
      obtain ⟨s', moved, rfl⟩ := Option.map_eq_some_iff.1 stepped
      exact ⟨inv.1.step inStep.handles moved,
        Accounted.step inStep.handles inv.1 inv.2 meets (systemStep_flow moved)⟩)
    reachable
  have started_ : s.handlerCalls e ptr ≤ s.enqueuedMessages e ptr := by
    unfold RunningExecutor.handlerCalls RunningExecutor.enqueuedMessages RunningExecutor.sumGroups
    refine Finset.sum_le_sum fun id _ => ?_
    cases at_ : s.groups id with
    | none => exact Nat.le_refl 0
    | some g =>
        obtain ⟨_, _, _, -, reached⟩ := (inv.groups id g at_).reached
        exact WorkerGroup.countP_started_le (WorkerGroup.conserved_reachable reached) _
  have all : s.enqueuedMessages e ptr + s.cycle.pendingMessages ptr ≤ deliveries ptr log := accounted
  omega

/-! ### Two takes -/

instance (subscription : ReadySubscription) : Decidable subscription.NullUnlessDelivered :=
  inferInstanceAs (Decidable (_ ∨ _ ∨ _))

instance (e : ExecutorState) (p : RunningExecutor × List ReadySubscription) (label : SystemLabel) :
    Decidable (e.TakesNullUnlessDelivered p label) :=
  inferInstanceAs (Decidable (∀ subscription ∈ e.takesOf p.1 label, subscription.NullUnlessDelivered))

/-- A type-erased subscription is ready, its take ends like this, and the bundle is
handed over and run. -/
def genericTakeRun (take : Take) : List SystemLabel :=
  [.populate ⟨[{ ptr := 11, isSerialized := false, canLoanMessages := false, take, loanedMsg := 0,
                 message := 5, serializedMsg := 0 }], []⟩ storedDispatch,
    .nextBatch true, .fetchAdd, .updatePrio, .updatePrio, .release,
    .worker 1 0 .acquire, .worker 1 0 .check, .worker 1 0 .tryDequeue, .worker 1 0 .startRun]

/-- The message was taken: one delivery, one call. -/
theorem handlerCalls_le_deliveries_taken :
    ∃ e registry s log, (ExecutorState.create sampleChains samplePending).startup sampleEnvironment none =
        .ok (e, registry) ∧
      e.takeSystem.ReachableWhile e.TakesNullUnlessDelivered (s, log) ∧ s.handlerCalls e 11 = 1 ∧
      s.handlerCalls e 11 ≤ deliveries 11 log := by
  obtain ⟨⟨e, registry⟩, started, runs⟩ := Loop.exists_ok_of_any
    (x := (ExecutorState.create sampleChains samplePending).startup sampleEnvironment none)
    (p := fun result => (result.1.takeSystem.runWhile result.1.TakesNullUnlessDelivered
      (result.1.running, []) (genericTakeRun .taken)).any fun p => p.1.handlerCalls result.1 11 == 1)
    (by decide)
  obtain ⟨⟨s, log⟩, ran, calls⟩ := (Option.any_eq_true _ _).1 runs
  have start : e.takeSystem.Init (e.running, []) := ⟨rfl, rfl⟩
  have reachable := Transition.reachableWhile_run (.init start) ran
  exact ⟨e, registry, s, log, started, reachable, of_decide_eq_true calls,
    (handlerCalls_le_deliveries sample_process started).2 s log reachable 11⟩

/-- **A handler is called without a message**: the take found nothing, the message
pointer is the one `create_message` returned, and the bundle is run. -/
theorem handler_called_without_message :
    ∃ e registry s log, (ExecutorState.create sampleChains samplePending).startup sampleEnvironment none =
        .ok (e, registry) ∧
      e.takeSystem.Reachable (s, log) ∧ s.handlerCalls e 11 = 1 ∧ deliveries 11 log = 0 := by
  obtain ⟨⟨e, registry⟩, started, runs⟩ := Loop.exists_ok_of_any
    (x := (ExecutorState.create sampleChains samplePending).startup sampleEnvironment none)
    (p := fun result => (result.1.takeSystem.run (result.1.running, []) (genericTakeRun .takeFailed)).any
      fun p => p.1.handlerCalls result.1 11 == 1 && deliveries 11 p.2 == 0)
    (by decide)
  obtain ⟨⟨s, log⟩, ran, counts⟩ := (Option.any_eq_true _ _).1 runs
  obtain ⟨calls, delivered⟩ := (Bool.and_eq_true _ _).mp counts
  have start : e.takeSystem.Init (e.running, []) := ⟨rfl, rfl⟩
  exact ⟨e, registry, s, log, started, Transition.reachableWhile_run (.init start) ran,
    of_decide_eq_true calls, of_decide_eq_true delivered⟩

end PreemptiveExecutor
