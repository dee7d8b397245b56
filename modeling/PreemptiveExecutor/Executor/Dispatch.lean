/-
# Executor.Dispatch — what becomes of the bundles of one `populate_ready_queues`

Taking a message or calling a timer cannot be undone, and it is done before the
lookups.  So the bundles of a call are accounted for (`populateReadyQueues_accounts`):

* a call that returns has enqueued each bundle to the queue of the threadgroup its
  handle leads to, except subscriptions with an unknown handle, which it has
  dropped with a warning;
* a call that throws while it bundles (for a timer with an unknown handle, or
  because the middleware throws) has enqueued nothing;
* a call that throws while it dispatches has enqueued the batches of the groups
  that come first in its iteration order, and lost the others.
-/
import PreemptiveExecutor.Executor.Lookups

namespace PreemptiveExecutor

open Theory

set_option autoImplicit false

/-! ## What a call takes -/

/-- The bundle that `take_and_bundle` returns, if it returns one. -/
def ReadySubscription.taken (subscription : ReadySubscription) : List BundledExecutable :=
  match subscription.takeAndBundle with
  | .ok (some bundle) => [bundle]
  | _ => []

def ReadyTimer.taken (timer : ReadyTimer) : List BundledExecutable := timer.takeAndBundle.toList

/-- The bundles of a call that runs both loops to their end, in their order. -/
def ReadyHandles.taken (ready : ReadyHandles) : List BundledExecutable :=
  ready.subscriptions.flatMap ReadySubscription.taken ++ ready.timers.flatMap ReadyTimer.taken

theorem ReadyHandles.mem_taken {ready : ReadyHandles} {bundle : BundledExecutable}
    (member : bundle ∈ ready.taken) :
    (∃ subscription ∈ ready.subscriptions, subscription.takeAndBundle = .ok (some bundle)) ∨
      ∃ timer ∈ ready.timers, bundle ∈ timer.taken := by
  rcases List.mem_append.1 member with message | fired
  · obtain ⟨subscription, inReady, took⟩ := List.mem_flatMap.1 message
    refine Or.inl ⟨subscription, inReady, ?_⟩
    unfold ReadySubscription.taken at took
    split at took
    · rename_i taken answer
      obtain rfl := List.mem_singleton.1 took
      exact answer
    · cases took
  · exact Or.inr (List.mem_flatMap.1 fired)

/-- A call without any worker group takes nothing. -/
def ReadyHandles.takenFor (ready : ReadyHandles) (workers : Workers) : List BundledExecutable :=
  if workers.keys.isEmpty then [] else ready.taken

/-- The handle of the bundle leads to the threadgroup. -/
def BundledExecutable.leadsTo (handles : UnorderedMap Ptr Nat) (tgid : Nat) (bundle : BundledExecutable) :
    Bool :=
  handles.lookup bundle.getRawHandle = some tgid

def BundledExecutable.unknown (handles : UnorderedMap Ptr Nat) (bundle : BundledExecutable) : Bool :=
  handles.lookup bundle.getRawHandle = none

/-! ## The bundling loops -/

section Collect

variable {handles : UnorderedMap Ptr Nat} {c c' : Collected}

theorem Collected.subscript_emplaceBundle (c : Collected) (tgid id : Nat) (bundle : BundledExecutable) :
    UnorderedMap.subscript (c.emplaceBundle tgid bundle).bundlesByTgid id =
      UnorderedMap.subscript c.bundlesByTgid id ++ if id = tgid then [bundle] else [] := by
  unfold Collected.emplaceBundle
  rw [UnorderedMap.subscript_update]
  by_cases same : id = tgid
  · rw [if_pos same, if_pos same, same]
  · rw [if_neg same, if_neg same, List.append_nil]

/-- What an iteration that returns has done with the bundle it took, if it took one. -/
def Collected.Collects (handles : UnorderedMap Ptr Nat) (taken : List BundledExecutable)
    (c c' : Collected) : Prop :=
  taken = [] ∧ c' = c ∨ ∃ bundle, taken = [bundle] ∧
    c' = match handles.lookup bundle.getRawHandle with
      | none => { c with dropped := c.dropped ++ [bundle] }
      | some tgid => c.emplaceBundle tgid bundle

theorem Collected.Collects.appends {taken : List BundledExecutable}
    (step : Collected.Collects handles taken c c') :
    (∀ id, UnorderedMap.subscript c'.bundlesByTgid id =
      UnorderedMap.subscript c.bundlesByTgid id ++ taken.filter (·.leadsTo handles id)) ∧
      c'.dropped = c.dropped ++ taken.filter (·.unknown handles) := by
  rcases step with ⟨rfl, rfl⟩ | ⟨bundle, rfl, rfl⟩
  · simp
  · cases found : handles.lookup bundle.getRawHandle with
    | none => simp [BundledExecutable.leadsTo, BundledExecutable.unknown, found]
    | some tgid =>
        refine ⟨fun id => ?_, ?_⟩
        · simp only [Collected.subscript_emplaceBundle]
          by_cases same : id = tgid
          · simp [BundledExecutable.leadsTo, found, same]
          · have other : tgid ≠ id := fun h => same h.symm
            simp [BundledExecutable.leadsTo, found, same, other]
        · simp [BundledExecutable.unknown, found, Collected.emplaceBundle]

theorem collectSubscription_ok {subscription : ReadySubscription}
    (ran : collectSubscription (some handles) c subscription = .ok c') :
    Collected.Collects handles subscription.taken c c' := by
  unfold collectSubscription at ran
  unfold ReadySubscription.taken
  cases took : subscription.takeAndBundle with
  | error error => rw [took] at ran; cases ran
  | ok bundle =>
      rw [took] at ran
      cases bundle with
      | none => cases ran; exact Or.inl ⟨rfl, rfl⟩
      | some bundle =>
          refine Or.inr ⟨bundle, rfl, ?_⟩
          simp only [lookupHandle, bind, Except.bind] at ran
          cases found : handles.lookup bundle.getRawHandle with
          | none => rw [found] at ran; cases ran; rfl
          | some tgid => rw [found] at ran; cases ran; rfl

theorem collectTimer_ok {timer : ReadyTimer} (ran : collectTimer (some handles) c timer = .ok c') :
    Collected.Collects handles timer.taken c c' ∧
      ∀ bundle ∈ timer.taken, bundle.unknown handles = false := by
  unfold collectTimer at ran
  unfold ReadyTimer.taken
  cases took : timer.takeAndBundle with
  | none =>
      rw [took] at ran
      cases ran
      exact ⟨Or.inl ⟨rfl, rfl⟩, fun bundle member => nomatch member⟩
  | some bundle =>
      rw [took] at ran
      simp only [lookupHandle, bind, Except.bind] at ran
      cases found : handles.lookup bundle.getRawHandle with
      | none => rw [found] at ran; cases ran
      | some tgid =>
          rw [found] at ran
          cases ran
          refine ⟨Or.inr ⟨bundle, rfl, by rw [found]⟩, fun other member => ?_⟩
          obtain rfl := List.mem_singleton.1 member
          simp [BundledExecutable.unknown, found]

/-- The two loops that have returned, as one appending loop. -/
theorem collectBundles_appends {ready : ReadyHandles} (read : Collected → List BundledExecutable)
    (keep : BundledExecutable → Bool) (start : read {} = [])
    (step : ∀ {taken : List BundledExecutable} {c c' : Collected}, Collected.Collects handles taken c c' →
      read c' = read c ++ taken.filter keep)
    (collected : collectBundles (some handles) ready = .ok c) : read c = ready.taken.filter keep := by
  unfold collectBundles at collected
  cases first : ready.subscriptions.foldlM (collectSubscription (some handles)) {} with
  | error error => rw [first] at collected; cases collected
  | ok c₁ =>
      rw [first] at collected
      change ready.timers.foldlM (collectTimer (some handles)) c₁ = .ok c at collected
      have subscriptions := Loop.foldlM_appends read
        (fun subscription : ReadySubscription => subscription.taken.filter keep) ready.subscriptions
        (fun s s' _ _ ran => step (collectSubscription_ok ran)) first
      have timers := Loop.foldlM_appends read (fun timer : ReadyTimer => timer.taken.filter keep) ready.timers
        (fun s s' _ _ ran => step (collectTimer_ok ran).1) collected
      rw [timers, subscriptions, start, List.nil_append, ReadyHandles.taken, List.filter_append,
        List.filter_flatMap, List.filter_flatMap]

/-- **The batches of the bundling loops**: each threadgroup's is what was taken for
it, in the order of the loops, and what is dropped is the rest, all of it messages. -/
theorem collectBundles_ok {ready : ReadyHandles} (collected : collectBundles (some handles) ready = .ok c) :
    (∀ id, UnorderedMap.subscript c.bundlesByTgid id = ready.taken.filter (·.leadsTo handles id)) ∧
      c.dropped = ready.taken.filter (·.unknown handles) ∧
      ∀ timer ∈ ready.timers, ∀ bundle ∈ timer.taken, bundle.unknown handles = false := by
  refine ⟨fun id => ?_, ?_, ?_⟩
  · exact collectBundles_appends (fun c => UnorderedMap.subscript c.bundlesByTgid id) _ rfl
      (fun step => step.appends.1 id) collected
  · exact collectBundles_appends Collected.dropped _ rfl (fun step => step.appends.2) collected
  · unfold collectBundles at collected
    cases first : ready.subscriptions.foldlM (collectSubscription (some handles)) {} with
    | error error => rw [first] at collected; cases collected
    | ok c₁ =>
        rw [first] at collected
        exact Loop.foldlM_each (fun timer : ReadyTimer => ∀ bundle ∈ timer.taken, bundle.unknown handles = false)
          ready.timers (fun s s' timer ran => (collectTimer_ok ran).2) collected

end Collect

/-! ## The dispatch loop -/

/-- The group has been handed `batch`, and `released` tokens with it. -/
structure WorkerGroup.Received (g g' : WorkerGroup BundledExecutable) (batch : List BundledExecutable)
    (released : Nat) : Prop where
  queue : g'.queue = g.queue ++ batch.map some
  numPending : g'.numPending = g.numPending + batch.length
  semaphore : g'.semaphore = g.semaphore + released

theorem WorkerGroup.Received.refl (g : WorkerGroup BundledExecutable) : g.Received g [] 0 :=
  ⟨by simp, by simp, rfl⟩

theorem WorkerGroup.Received.trans {g g' g'' : WorkerGroup BundledExecutable}
    {batch batch' : List BundledExecutable} {released released' : Nat}
    (first : g.Received g' batch released) (second : g'.Received g'' batch' released') :
    g.Received g'' (batch ++ batch') (released + released') where
  queue := by rw [second.queue, first.queue, List.map_append, List.append_assoc]
  numPending := by
    rw [second.numPending, first.numPending, List.length_append]
    push_cast
    omega
  semaphore := by rw [second.semaphore, first.semaphore, Nat.add_assoc]

/-- Each worker group has been handed its part, and there are no others. -/
def Distributed (workers workers' : Workers) (placed : Nat → List BundledExecutable)
    (released : Nat → Nat) : Prop :=
  ∀ id, Option.Rel (fun g g' : WorkerGroup BundledExecutable => g.Received g' (placed id) (released id))
    (workers.lookup id) (workers'.lookup id)

namespace Distributed

variable {workers workers' workers'' : Workers}

theorem refl (workers : Workers) : Distributed workers workers (fun _ => []) (fun _ => 0) := by
  intro id
  cases workers.lookup id with
  | none => exact .none
  | some g => exact .some (.refl g)

theorem trans {placed placed' : Nat → List BundledExecutable} {released released' : Nat → Nat}
    (first : Distributed workers workers' placed released)
    (second : Distributed workers' workers'' placed' released') :
    Distributed workers workers'' (fun id => placed id ++ placed' id)
      (fun id => released id + released' id) := by
  intro id
  have one := first id
  have two := second id
  cases before : workers.lookup id with
  | none =>
      rw [before] at one
      cases between : workers'.lookup id with
      | none =>
          rw [between] at two
          cases after : workers''.lookup id with
          | none => exact .none
          | some g'' => rw [after] at two; cases two
      | some g' => rw [between] at one; cases one
  | some g =>
      rw [before] at one
      cases between : workers'.lookup id with
      | none => rw [between] at one; cases one
      | some g' =>
          rw [between] at one two
          cases after : workers''.lookup id with
          | none => rw [after] at two; cases two
          | some g'' =>
              rw [after] at two
              cases one with
              | some received =>
                  cases two with
                  | some received' => exact .some (received.trans received')

/-- One group is handed a batch. -/
theorem insert {tgid : Nat} {g g' : WorkerGroup BundledExecutable} {batch : List BundledExecutable}
    {released : Nat} (found : workers.lookup tgid = some g) (received : g.Received g' batch released) :
    Distributed workers (workers.insert tgid g') (fun id => if tgid = id then batch else [])
      (fun id => if tgid = id then released else 0) := by
  intro id
  rw [UnorderedMap.lookup_insert_eq]
  by_cases same : id = tgid
  · subst same
    simp only [↓reduceIte, found]
    exact .some received
  · have other : tgid ≠ id := fun h => same h.symm
    simp only [same, other, ↓reduceIte]
    exact refl workers id

theorem mem_iff {placed : Nat → List BundledExecutable} {released : Nat → Nat}
    (distributed : Distributed workers workers' placed released) (id : Nat) :
    id ∈ workers ↔ id ∈ workers' := by
  have related := distributed id
  rw [UnorderedMap.mem_iff_lookup, UnorderedMap.mem_iff_lookup]
  cases before : workers.lookup id with
  | none =>
      cases after : workers'.lookup id with
      | none => simp
      | some g' => rw [before, after] at related; cases related
  | some g =>
      cases after : workers'.lookup id with
      | none => rw [before, after] at related; cases related
      | some g' => simp

end Distributed

theorem WorkerGroup.updatePrioAtOnce_received {g g' : WorkerGroup BundledExecutable}
    (updated : g.updatePrioAtOnce = .ok g') : g.Received g' [] 0 := by
  unfold WorkerGroup.updatePrioAtOnce at updated
  simp only at updated
  split at updated
  · cases updated
    exact .refl g
  · split at updated
    · cases updated
    · cases updated
      exact ⟨by simp, by simp, rfl⟩

/-- What ends the dispatch loop at the batch of a threadgroup: the exception, and whether the
batch has been enqueued. -/
inductive Stops (choices : DispatchChoices) (workers : Workers) (tgid : Nat) : Error → Bool → Prop where
  | unknown (missing : tgid ∉ workers) : Stops choices workers tgid (unknownThreadGroup tgid) false
  | outOfMemory (fails : choices.enqueueOk tgid = false) : Stops choices workers tgid (enqueueFailed tgid) false
  | updatePrio :
      Stops choices workers tgid (.runtimeError "MutexGroup with multiple threads- invalid state") true

theorem Stops.of_mem_iff {choices : DispatchChoices} {workers workers' : Workers} {tgid : Nat} {error : Error}
    {enqueued : Bool} (stops : Stops choices workers tgid error enqueued) (same : ∀ id, id ∈ workers' ↔ id ∈ workers) :
    Stops choices workers' tgid error enqueued := by
  cases stops with
  | unknown missing => exact .unknown (mt (same tgid).1 missing)
  | outOfMemory fails => exact .outOfMemory fails
  | updatePrio => exact .updatePrio

theorem WorkerGroup.updatePrioAtOnce_threw {g : WorkerGroup BundledExecutable} {error : Error}
    (threw : g.updatePrioAtOnce = .error error) :
    error = .runtimeError "MutexGroup with multiple threads- invalid state" := by
  unfold WorkerGroup.updatePrioAtOnce at threw
  simp only at threw
  split at threw
  · cases threw
  · split at threw
    · cases threw
      rfl
    · cases threw

/-- **What one iteration of the dispatch loop hands out**: the batch with its tokens
if it returns; if it throws, nothing, or the batch without a token. -/
theorem dispatchBatch_distributes (choices : DispatchChoices) (workers : Workers) (tgid : Nat)
    (bundles : List BundledExecutable) :
    (∀ workers', dispatchBatch choices workers tgid bundles = .ok workers' →
      Distributed workers workers' (fun id => if tgid = id then bundles else [])
        (fun id => if tgid = id then bundles.length else 0) ∧ (bundles ≠ [] → tgid ∈ workers)) ∧
    ∀ error workers', dispatchBatch choices workers tgid bundles = .error (error, workers') →
      ∃ enqueued, Stops choices workers tgid error enqueued ∧
        Distributed workers workers' (fun id => if enqueued = true ∧ tgid = id then bundles else []) (fun _ => 0) := by
  unfold dispatchBatch
  by_cases empty : bundles.isEmpty
  · rw [if_pos empty]
    rw [List.isEmpty_iff] at empty
    subst empty
    refine ⟨fun workers' ran => ?_, fun _ _ ran => nomatch ran⟩
    cases ran
    exact ⟨by simpa using Distributed.refl workers, fun some_ => absurd rfl some_⟩
  · rw [if_neg empty]
    cases found : workers.lookup tgid with
    | none =>
        refine ⟨fun _ ran => (nomatch ran), fun _ _ ran => ?_⟩
        cases ran
        exact ⟨false, .unknown (AList.lookup_eq_none.1 found), by simpa using Distributed.refl workers⟩
    | some g =>
        simp only
        by_cases memory : choices.enqueueOk tgid = true
        · have handed : g.Received { g with
              queue := g.queue ++ bundles.map some
              enqueued := g.enqueued ++ bundles
              numPending := g.numPending + bundles.length } bundles 0 := ⟨rfl, rfl, rfl⟩
          simp only [memory, Bool.not_true, Bool.false_eq_true, ↓reduceIte]
          split
          · rename_i threw
            refine ⟨fun _ ran => (nomatch ran), fun _ _ ran => ?_⟩
            cases ran
            obtain rfl := WorkerGroup.updatePrioAtOnce_threw threw
            have placed := Distributed.insert found handed
            exact ⟨true, .updatePrio, by simpa using placed⟩
          · rename_i g' updated
            refine ⟨fun workers' ran => ?_, fun _ _ ran => nomatch ran⟩
            cases ran
            have tokens : g'.Received { g' with semaphore := g'.semaphore + bundles.length } []
                bundles.length := ⟨by simp, by simp, rfl⟩
            have placed := Distributed.insert found
              ((handed.trans (WorkerGroup.updatePrioAtOnce_received updated)).trans tokens)
            exact ⟨by simpa using placed, fun _ => UnorderedMap.mem_iff_lookup.2 ⟨g, found⟩⟩
        · simp only [memory, Bool.not_false, ↓reduceIte]
          refine ⟨fun _ ran => (nomatch ran), fun _ _ ran => ?_⟩
          cases ran
          exact ⟨false, .outOfMemory (Bool.eq_false_iff.2 memory), by simpa using Distributed.refl workers⟩

/-- The loop over the entries of `bundles_by_tgid`, in their order. -/
theorem dispatchBundles_distributes (choices : DispatchChoices)
    (entries : List (Sigma fun _ : Nat => List BundledExecutable)) :
    ∀ workers : Workers,
      (∀ workers', entries.foldlM (fun workers pair => dispatchBatch choices workers pair.1 pair.2) workers =
          .ok workers' →
        Distributed workers workers' (UnorderedMap.segment entries)
          (fun id => (UnorderedMap.segment entries id).length) ∧
        ∀ pair ∈ entries, pair.2 ≠ [] → pair.1 ∈ workers) ∧
      ∀ error workers', entries.foldlM (fun workers pair => dispatchBatch choices workers pair.1 pair.2)
          workers = .error (error, workers') →
        ∃ before pair after enqueued, entries = before ++ pair :: after ∧
          Stops choices workers pair.1 error enqueued ∧
          Distributed workers workers'
            (fun id => UnorderedMap.segment before id ++ if enqueued = true ∧ pair.1 = id then pair.2 else [])
            (fun id => (UnorderedMap.segment before id).length) := by
  induction entries with
  | nil =>
      intro workers
      refine ⟨fun workers' ran => ?_, fun _ _ ran => nomatch ran⟩
      cases ran
      exact ⟨Distributed.refl workers, fun _ member => nomatch member⟩
  | cons pair entries ih =>
      intro workers
      obtain ⟨returns, throws⟩ := dispatchBatch_distributes choices workers pair.1 pair.2
      rw [List.foldlM_cons]
      cases here : dispatchBatch choices workers pair.1 pair.2 with
      | error failed =>
          refine ⟨fun _ ran => (nomatch ran), fun error workers' ran => ?_⟩
          cases ran
          obtain ⟨enqueued, stops, placed⟩ := throws error workers' here
          exact ⟨[], pair, entries, enqueued, rfl, stops, placed⟩
      | ok workers₁ =>
          obtain ⟨placed, known⟩ := returns workers₁ here
          obtain ⟨returns', throws'⟩ := ih workers₁
          have tokens : ∀ entries : List (Sigma fun _ : Nat => List BundledExecutable),
              (fun id => (if pair.1 = id then pair.2.length else 0) + (UnorderedMap.segment entries id).length) =
                fun id => (UnorderedMap.segment (pair :: entries) id).length := by
            intro entries
            funext id
            rw [UnorderedMap.segment_cons, List.length_append]
            by_cases same : pair.1 = id <;> simp [same]
          refine ⟨fun workers' ran => ?_, fun error workers' ran => ?_⟩
          · obtain ⟨placed', known'⟩ := returns' workers' ran
            have both := placed.trans placed'
            refine ⟨?_, fun pair' member some_ => ?_⟩
            · rw [tokens] at both
              exact both
            · rcases List.mem_cons.1 member with rfl | later
              · exact known some_
              · exact (placed.mem_iff _).2 (known' pair' later some_)
          · obtain ⟨before, last, after, enqueued, rfl, stops, placed'⟩ := throws' error workers' ran
            refine ⟨pair :: before, last, after, enqueued, rfl, stops.of_mem_iff placed.mem_iff, ?_⟩
            have both := placed.trans placed'
            simp only [← List.append_assoc, ← UnorderedMap.segment_cons] at both
            rw [tokens] at both
            exact both

/-! ## A whole call -/

section Collected

variable {handles : UnorderedMap Ptr Nat} {ready : ReadyHandles} {collected : Collected}

/-- The iteration order does not matter to what a threadgroup gets. -/
theorem subscript_ordered (collect : collectBundles (some handles) ready = .ok collected)
    (choices : DispatchChoices) (id : Nat) :
    UnorderedMap.subscript (choices.order collected.bundlesByTgid) id =
      ready.taken.filter (·.leadsTo handles id) := by
  rw [← (collectBundles_ok collect).1 id, UnorderedMap.subscript, UnorderedMap.subscript,
    (choices.order_same collected.bundlesByTgid).lookup_eq id]

/-- A bundle with a known handle is in the batch of its threadgroup. -/
theorem mem_ordered (collect : collectBundles (some handles) ready = .ok collected)
    (choices : DispatchChoices) {bundle : BundledExecutable} (member : bundle ∈ ready.taken) {id : Nat}
    (found : handles.lookup bundle.getRawHandle = some id) :
    ∃ bundles, (choices.order collected.bundlesByTgid).lookup id = some bundles ∧ bundle ∈ bundles := by
  have inBatch : bundle ∈ UnorderedMap.subscript (choices.order collected.bundlesByTgid) id := by
    rw [subscript_ordered collect]
    exact List.mem_filter.2 ⟨member, by simp [BundledExecutable.leadsTo, found]⟩
  unfold UnorderedMap.subscript at inBatch
  cases batch : (choices.order collected.bundlesByTgid).lookup id with
  | none => rw [batch] at inBatch; cases inBatch
  | some bundles => rw [batch] at inBatch; exact ⟨bundles, rfl, inBatch⟩

/-- The batches, in the iteration order. -/
theorem map_ordered {α : Type} (collect : collectBundles (some handles) ready = .ok collected)
    (choices : DispatchChoices) (f : List BundledExecutable → α) :
    ((choices.order collected.bundlesByTgid).entries.map fun pair => f pair.2) =
      (choices.order collected.bundlesByTgid).keys.map fun id =>
        f (ready.taken.filter (·.leadsTo handles id)) := by
  rw [AList.keys, List.keys, List.map_map]
  refine List.map_congr_left fun pair member => ?_
  have batch := UnorderedMap.subscript_of_lookup (UnorderedMap.mem_entries_iff.1 member)
  rw [subscript_ordered collect] at batch
  rw [← batch]
  rfl

/-- Where every batch has a worker group, only messages of unknown handles have none. -/
theorem known_or_message (collect : collectBundles (some handles) ready = .ok collected)
    (choices : DispatchChoices) {workers : Workers}
    (known : ∀ pair ∈ (choices.order collected.bundlesByTgid).entries, pair.2 ≠ [] → pair.1 ∈ workers)
    {bundle : BundledExecutable} (member : bundle ∈ ready.taken) :
    (∃ id ∈ workers, handles.lookup bundle.getRawHandle = some id) ∨
      handles.lookup bundle.getRawHandle = none ∧
        ∃ subscription ∈ ready.subscriptions, subscription.takeAndBundle = .ok (some bundle) := by
  cases found : handles.lookup bundle.getRawHandle with
  | none =>
      rcases ReadyHandles.mem_taken member with message | ⟨timer, inReady, took⟩
      · exact Or.inr ⟨rfl, message⟩
      · have handle := (collectBundles_ok collect).2.2 timer inReady bundle took
        simp [BundledExecutable.unknown, found] at handle
  | some id =>
      obtain ⟨bundles, batch, inBatch⟩ := mem_ordered collect choices member found
      exact Or.inl ⟨id, known ⟨id, bundles⟩ (UnorderedMap.mem_entries_iff.2 batch)
        (List.ne_nil_of_mem inBatch), rfl⟩

/-- The batches of the threadgroups before the one the loop has come to, and perhaps its own. -/
theorem handed_before (collect : collectBundles (some handles) ready = .ok collected) (choices : DispatchChoices)
    {before after : List (Sigma fun _ : Nat => List BundledExecutable)} {pair : Sigma fun _ : Nat => List BundledExecutable}
    (split_ : (choices.order collected.bundlesByTgid).entries = before ++ pair :: after) (enqueued : Bool) :
    (∀ id, (UnorderedMap.segment before id ++ if enqueued = true ∧ pair.1 = id then pair.2 else []) =
      if id ∈ before.keys ∨ enqueued = true ∧ pair.1 = id then ready.taken.filter (·.leadsTo handles id) else []) ∧
    ∀ id, (UnorderedMap.segment before id).length =
      if id ∈ before.keys then (ready.taken.filter (·.leadsTo handles id)).length else 0 := by
  have same : ∀ id, UnorderedMap.segment before id =
      if id ∈ before.keys then ready.taken.filter (·.leadsTo handles id) else [] := fun id => by
    rw [UnorderedMap.segment_first _ split_, subscript_ordered collect]
  have own : pair.2 = ready.taken.filter (·.leadsTo handles pair.1) := by
    have member : pair ∈ (choices.order collected.bundlesByTgid).entries := by
      rw [split_]
      exact List.mem_append_right _ List.mem_cons_self
    rw [← subscript_ordered collect choices,
      UnorderedMap.subscript_of_lookup (UnorderedMap.mem_entries_iff.1 member)]
  have fresh : pair.1 ∉ before.keys := by
    have distinct := (choices.order collected.bundlesByTgid).nodupKeys
    rw [split_, List.NodupKeys, List.keys, List.map_append] at distinct
    exact fun known => (List.nodup_append.1 distinct).2.2 _ known _ List.mem_cons_self rfl
  refine ⟨fun id => ?_, fun id => ?_⟩
  · by_cases here : enqueued = true ∧ pair.1 = id
    · rw [if_pos here, if_pos (Or.inr here), ← here.2, same, if_neg fresh, own, List.nil_append]
    · rw [same, if_neg here, List.append_nil]
      simp only [here, or_false]
  · rw [same]
    split <;> rfl

end Collected

/-- **The bundles of a call are accounted for.**  If it returns, each bundle it took
is now in the queue of the threadgroup its handle leads to, and in no other, or it
is a message with an unknown handle and in no queue.  If it throws, either the
bundling has thrown and no queue has changed, or the dispatch loop has at a threadgroup:
those before it in the iteration order have their batches and the tokens for them, and
none of the others has a bundle or a token, but for the batch of that one if `update_prio`
has thrown. -/
theorem populateReadyQueues_accounts (handles : UnorderedMap Ptr Nat) (choices : DispatchChoices)
    (ready : ReadyHandles) (workers : Workers) :
    (∀ collected workers', populateReadyQueues (some handles) choices ready workers =
        .ok (collected, workers') →
      Distributed workers workers' (fun id => (ready.takenFor workers).filter (·.leadsTo handles id))
        (fun id => ((ready.takenFor workers).filter (·.leadsTo handles id)).length) ∧
      ∀ bundle ∈ ready.takenFor workers,
        (∃ id ∈ workers, handles.lookup bundle.getRawHandle = some id) ∨
          handles.lookup bundle.getRawHandle = none ∧
            ∃ subscription ∈ ready.subscriptions, subscription.takeAndBundle = .ok (some bundle)) ∧
    ∀ error workers', populateReadyQueues (some handles) choices ready workers = .error (error, workers') →
      collectBundles (some handles) ready = .error error ∧ workers' = workers ∨
        ∃ collected before tgid after enqueued, collectBundles (some handles) ready = .ok collected ∧
          (choices.order collected.bundlesByTgid).keys = before ++ tgid :: after ∧
          Stops choices workers tgid error enqueued ∧
          Distributed workers workers'
            (fun id => if id ∈ before ∨ enqueued = true ∧ tgid = id then ready.taken.filter (·.leadsTo handles id)
              else [])
            (fun id => if id ∈ before then (ready.taken.filter (·.leadsTo handles id)).length else 0) := by
  unfold populateReadyQueues ReadyHandles.takenFor
  by_cases nobody : workers.keys.isEmpty
  · simp only [nobody, ↓reduceIte]
    refine ⟨fun collected workers' ran => ?_, fun _ _ ran => by cases ran⟩
    cases ran
    exact ⟨Distributed.refl workers, fun _ member => by cases member⟩
  · simp only [nobody, Bool.false_eq_true, ↓reduceIte]
    cases collect : collectBundles (some handles) ready with
    | error error =>
        refine ⟨fun _ _ ran => (by cases ran), fun _ _ ran => ?_⟩
        cases ran
        exact Or.inl ⟨rfl, rfl⟩
    | ok collected =>
        obtain ⟨returns, throws⟩ := dispatchBundles_distributes choices
          (choices.order collected.bundlesByTgid).entries workers
        simp only [dispatchBundles]
        cases loop : (choices.order collected.bundlesByTgid).entries.foldlM
            (fun workers pair => dispatchBatch choices workers pair.1 pair.2) workers with
        | error failed =>
            refine ⟨fun _ _ ran => (by cases ran), fun error workers' ran => ?_⟩
            cases ran
            obtain ⟨before, pair, after, enqueued, split_, stops, placed⟩ := throws error workers' loop
            refine Or.inr ⟨collected, before.keys, pair.1, after.keys, enqueued, rfl, ?_, stops, ?_⟩
            · simp [AList.keys, split_, List.keys]
            · obtain ⟨batches, tokens⟩ := handed_before collect choices split_ enqueued
              simpa only [batches, tokens] using placed
        | ok workers₁ =>
            refine ⟨fun c workers' ran => ?_, fun _ _ ran => by cases ran⟩
            cases ran
            obtain ⟨placed, known⟩ := returns workers₁ loop
            have same : UnorderedMap.segment (choices.order collected.bundlesByTgid).entries = fun id =>
                ready.taken.filter (·.leadsTo handles id) := by
              funext id
              rw [UnorderedMap.segment_entries, subscript_ordered collect]
            rw [same] at placed
            exact ⟨placed, fun bundle member => known_or_message collect choices known member⟩

/-! ### A message lost -/

/-- A message of a known subscription, and a timer whose handle is unknown. -/
def readyWithUnknownTimer : ReadyHandles where
  subscriptions := [{ ptr := 11, isSerialized := false, canLoanMessages := false, take := .taken,
                      loanedMsg := 0, message := 5, serializedMsg := 0 }]
  timers := [{ ptr := 12, call := true }]

def oneThreadgroup : Workers := (∅ : Workers).insert 1 (.spawn false 1 1)

def storedDispatch : DispatchChoices where
  order := id
  order_same := UnorderedMap.sameEntries_refl fun _ => rfl
  enqueueOk := fun _ => true

/-- **A message taken before an unknown timer is met is lost**: the call throws and
no worker queue has it. -/
theorem taken_lost_unknownTimer :
    populateReadyQueues (some ((∅ : UnorderedMap Ptr Nat).insert 11 1)) storedDispatch readyWithUnknownTimer
        oneThreadgroup = .error (timerHandleNotFound, oneThreadgroup) ∧
      .genericMsgSubscription 11 5 ∈ readyWithUnknownTimer.taken ∧
      ∀ id g, oneThreadgroup.lookup id = some g → some (.genericMsgSubscription 11 5) ∉ g.queue := by
  refine ⟨rfl, by decide, fun id g found => ?_⟩
  rw [oneThreadgroup, UnorderedMap.lookup_insert_eq] at found
  split at found
  · cases found
    exact List.not_mem_nil
  · cases found

end PreemptiveExecutor
