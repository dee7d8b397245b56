/-
# Executor.GivenBack — when the loaned messages are given back

A loaned message is returned by the `run` of its bundle and by nothing else.  So in
every run the messages returned are those of the bundles destroyed, and of the ones
destroyed next, exactly as long as nothing with a loaned message is discarded: not
by a call for an unknown handle, not by an exception that leaves it, and not with
the queue of a worker group (`loans_givenBack`).
-/
import PreemptiveExecutor.Executor.LoanSteps

namespace PreemptiveExecutor

open Theory

set_option autoImplicit false

/-! ## Runs -/

namespace ExecutorState

/-- The handle of the bundle is in `callback_handle_to_threadgroup_id`. -/
def Knows (e : ExecutorState) (bundle : BundledExecutable) : Prop :=
  (e.callbackHandleToThreadgroupId.bind fun handles => handles.lookup bundle.getRawHandle).isSome = true

instance (e : ExecutorState) (bundle : BundledExecutable) : Decidable (e.Knows bundle) :=
  inferInstanceAs (Decidable (_ = true))

/-- Nothing with a loaned message is dropped by a call, left behind by an exception,
or still queued when its worker group is destroyed. -/
def KeepsLoans (e : ExecutorState) (p : LoanedExecutor) : LoanLabel → Prop
  | .step (.populate ready choices) =>
      loans (e.bundled p.executor (.populate ready choices)) = [] ∨
        (∀ subscription ∈ ready.subscriptions, subscription.take ≠ .otherException) ∧
          (∀ timer ∈ ready.timers, ∀ bundle ∈ timer.taken, e.Knows bundle) ∧
          ∀ bundle ∈ e.bundled p.executor (.populate ready choices), bundle.loan ≠ none → e.Knows bundle
  | .step (.nextBatch enqueueOk) =>
      loans (p.executor.cycle.pending.flatMap Prod.snd) = [] ∨
        ∀ batch ∈ p.executor.cycle.pending.head?,
          batch.2 = [] ∨ (p.executor.groups batch.1).isSome = true ∧ enqueueOk = true
  | .join tgid => ∀ g ∈ p.executor.groups tgid, loans g.queued = []
  | _ => True

instance (e : ExecutorState) (p : LoanedExecutor) : ∀ label, Decidable (e.KeepsLoans p label)
  | .step (.populate _ _) => inferInstanceAs (Decidable (_ ∨ _))
  | .step (.nextBatch _) => inferInstanceAs (Decidable (_ ∨ _))
  | .join _ => inferInstanceAs (Decidable (∀ g ∈ _, _))
  | .step .fetchAdd => inferInstanceAs (Decidable True)
  | .step .updatePrio => inferInstanceAs (Decidable True)
  | .step .release => inferInstanceAs (Decidable True)
  | .step (.worker _ _ _) => inferInstanceAs (Decidable True)
  | .step (.setOk _) => inferInstanceAs (Decidable True)
  | .step (.setSpinning _) => inferInstanceAs (Decidable True)
  | .step (.destroy _) => inferInstanceAs (Decidable True)

end ExecutorState

/-- **Every loaned message whose bundle is destroyed has been returned, once**: those
returned are those of the bundles destroyed, and of the ones that have been run and
are destroyed next. -/
def LoanedExecutor.GivenBack (p : LoanedExecutor) (e : ExecutorState) : Prop :=
  ∀ loan, p.returned.count loan = p.destroyed.count loan + p.executor.loansRan e loan

/-- Every loaned message obtained is in the dispatch loop, at a worker group, or its
bundle is destroyed. -/
def LoanedExecutor.Accounted (p : LoanedExecutor) (e : ExecutorState) : Prop :=
  ∀ loan, p.obtained.count loan =
    p.destroyed.count loan + p.executor.cycle.loansPending loan + p.executor.loansAlive e loan

/-- The loaned messages whose bundle a step destroys without a `run`. -/
def ExecutorState.lost (e : ExecutorState) (p p' : LoanedExecutor) : LoanLabel → List Loan
  | .step label => loans (e.discarded p.executor p'.executor label)
  | .join tgid =>
      match p.executor.groups tgid with
      | some g => loans g.queued
      | none => []

section Run

variable {e : ExecutorState} {handles : UnorderedMap Ptr Nat} {p p' : LoanedExecutor}

theorem loanStep_step {label : SystemLabel} (stepped : e.loanStep p (.step label) = some p') :
    ∃ s', e.systemStep p.executor label = some s' ∧ p' = {
      executor := s'
      obtained := p.obtained ++ loans (e.bundled p.executor label)
      returned := p.returned ++ (p.executor.ofWorker Worker.finishes label).flatMap BundledExecutable.run
      destroyed := p.destroyed ++
        loans (e.discarded p.executor s' label ++ p.executor.ofWorker Worker.letsGo label) } := by
  have recorded : ExecutorState.loanStep.record e p label = some p' := by
    cases label with
    | populate ready choices =>
        simp only [ExecutorState.loanStep] at stepped
        split at stepped
        · exact stepped
        · cases stepped
    | _ => exact stepped
  obtain ⟨s', moved, rfl⟩ := Option.map_eq_some_iff.1 recorded
  exact ⟨s', moved, rfl⟩

theorem loanStep_join {tgid : Nat} (stepped : e.loanStep p (.join tgid) = some p') :
    ∃ g, p.executor.groups tgid = some g ∧ g.threads.all Worker.isExited = true ∧ p' = { p with
      executor := { p.executor with groups := Function.update p.executor.groups tgid none }
      destroyed := p.destroyed ++ loans g.queued } := by
  simp only [ExecutorState.loanStep] at stepped
  split at stepped
  · rename_i g at_
    split at stepped
    · rename_i joined
      cases stepped
      exact ⟨g, at_, joined.2, rfl⟩
    · cases stepped
  · cases stepped

/-- A thread that has exited has no bundle. -/
theorem WorkerGroup.exited_loans {g : WorkerGroup BundledExecutable} (exited : g.threads.all Worker.isExited = true) :
    g.bundles = g.queued ∧ g.ranBundles = [] := by
  have none_ : ∀ w ∈ g.threads, w = .exited := by
    intro w member
    have left := List.all_eq_true.1 exited w member
    cases w <;> first | rfl | cases left
  have exec : g.threads.filterMap Worker.exec = [] :=
    List.filterMap_eq_nil_iff.2 fun w member => by rw [none_ w member]; rfl
  refine ⟨by rw [WorkerGroup.bundles, exec, List.append_nil], ?_⟩
  exact List.filterMap_eq_nil_iff.2 fun w member => by rw [none_ w member]; rfl

/-- **The account of a step**: what it destroys has been returned, but for what is lost. -/
theorem loanStep_account (loaded : e.callbackHandleToThreadgroupId = some handles)
    (inv : SystemInv e handles p.executor)
    (sole : ∀ tgid g, p.executor.groups tgid = some g → g.SoleMutexThread)
    {label : LoanLabel} (stepped : e.loanStep p label = some p') :
    SystemInv e handles p'.executor ∧ (p.Accounted e → p'.Accounted e) ∧
      ∀ loan, p'.returned.count loan + p.destroyed.count loan + p.executor.loansRan e loan +
          (e.lost p p' label).count loan =
        p.returned.count loan + p'.destroyed.count loan + p'.executor.loansRan e loan := by
  cases label with
  | step label =>
      obtain ⟨s', moved, rfl⟩ := loanStep_step stepped
      have balanced := systemStep_balanced loaded inv sole moved
      refine ⟨inv.step loaded moved, fun accounted loan => ?_, fun loan => ?_⟩
      · have before := accounted loan
        have kept := balanced.kept loan
        unfold loanCount at kept
        simp only [loans, List.filterMap_append, List.count_append] at kept ⊢
        omega
      · have ran := balanced.ran loan
        unfold loanCount at ran
        simp only [ExecutorState.lost, flatMap_run, loans, List.filterMap_append, List.count_append] at ran ⊢
        omega
  | join tgid =>
      obtain ⟨g, at_, exited, rfl⟩ := loanStep_join stepped
      obtain ⟨queued, nothingRan⟩ := WorkerGroup.exited_loans exited
      have groups : ({ p.executor with groups := Function.update p.executor.groups tgid none } :
          RunningExecutor).groups = Function.update p.executor.groups tgid none := rfl
      have alive := fun loan => sumGroups_update (inv.mem_workers at_) groups fun g => loanCount loan g.bundles
      have ran := fun loan => sumGroups_update (inv.mem_workers at_) groups fun g => loanCount loan g.ranBundles
      simp only [at_, Option.elim_some, Option.elim_none, queued, nothingRan, loanCount_nil] at alive ran
      refine ⟨⟨fun tgid' g' found => ?_, inv.pending⟩, fun accounted loan => ?_, fun loan => ?_⟩
      · change Function.update p.executor.groups tgid none tgid' = some g' at found
        by_cases same : tgid' = tgid
        · subst same
          rw [Function.update_self] at found
          cases found
        · rw [Function.update_of_ne same] at found
          exact inv.groups tgid' g' found
      · have before := accounted loan
        have here := alive loan
        have queue : loanCount loan g.queued = (loans g.queued).count loan := rfl
        unfold RunningExecutor.loansAlive at before ⊢
        simp only [List.count_append]
        omega
      · have here := ran loan
        unfold RunningExecutor.loansRan
        simp only [ExecutorState.lost, at_, List.count_append]
        omega

/-! ### The condition -/

/-- The loans of the bundles of the call are among those the bundling loops took. -/
theorem loans_taken (ready : ReadyHandles) :
    loans ready.taken = [] ↔ loans (ready.subscriptions.flatMap ReadySubscription.taken) = [] := by
  rw [loans_eq_nil_iff, loans_eq_nil_iff]
  exact forall_congr' fun loan => by rw [loanCount_taken]

theorem mem_loans {bundles : List BundledExecutable} :
    loans bundles = [] ↔ ∀ bundle ∈ bundles, bundle.loan = none :=
  List.filterMap_eq_nil_iff

theorem knows_iff (loaded : e.callbackHandleToThreadgroupId = some handles) (bundle : BundledExecutable) :
    e.Knows bundle ↔ bundle.unknown handles = false := by
  unfold ExecutorState.Knows BundledExecutable.unknown
  rw [loaded, Option.bind_some]
  cases handles.lookup bundle.getRawHandle <;> simp

/-- A call loses nothing exactly if it has no loaned message, or knows its timers and
loaned messages and no take throws. -/
theorem populate_loses_iff (loaded : e.callbackHandleToThreadgroupId = some handles) {ready : ReadyHandles}
    {choices : DispatchChoices} {s' : RunningExecutor}
    (moved : e.systemStep p.executor (.populate ready choices) = some s') :
    loans (e.discarded p.executor s' (.populate ready choices)) = [] ↔
      e.KeepsLoans p (.step (.populate ready choices)) := by
  cases systemStep_cases moved with
  | nobody idle nobody =>
      have noTakes : e.bundled p.executor (.populate ready choices) = [] := by
        simp [ExecutorState.bundled, ExecutorState.takesOf, idle, nobody]
      simp [ExecutorState.discarded, ExecutorState.KeepsLoans, idle, noTakes, loans]
  | threw idle somebody collects =>
      refine ⟨Or.inl, fun keeps => ?_⟩
      rcases keeps with none_ | ⟨takes, timers, -⟩
      · exact none_
      · rw [loaded] at collects
        obtain ⟨-, subscription, inReady, threw⟩ := collectBundles_throws
          (fun timer inReady bundle took unknown => by
            have knows := (knows_iff loaded bundle).1 (timers timer inReady bundle took)
            simp [BundledExecutable.unknown, unknown] at knows) collects
        exact absurd threw (takes subscription inReady)
  | @collected _ _ c idle somebody collects =>
      simp only [ExecutorState.discarded, collects]
      rw [loaded] at collects
      have taken : e.bundled p.executor (.populate ready choices) =
          ready.subscriptions.flatMap ReadySubscription.taken := by
        simp [ExecutorState.bundled, ExecutorState.takesOf, idle, somebody, takesMade_of_collected collects]
      rw [(collectBundles_ok collects).2.1, mem_loans]
      simp only [ExecutorState.KeepsLoans, taken]
      constructor
      · intro none_
        refine Or.inr ⟨take_of_collected collects, fun timer inReady bundle took => ?_,
          fun bundle took has => ?_⟩
        · exact (knows_iff loaded bundle).2 ((collectBundles_ok collects).2.2 timer inReady bundle took)
        · refine (knows_iff loaded bundle).2 (Bool.eq_false_iff.2 fun unknown => has ?_)
          exact none_ bundle (List.mem_filter.2 ⟨List.mem_append_left _ took, unknown⟩)
      · intro keeps bundle dropped
        obtain ⟨took, unknown⟩ := List.mem_filter.1 dropped
        rcases keeps with none_ | ⟨-, timers, known⟩
        · exact mem_loans.1 ((loans_taken ready).2 none_) bundle took
        · rcases List.mem_append.1 took with message | timer
          · by_contra has
            rw [(knows_iff loaded bundle).1 (known bundle message has)] at unknown
            cases unknown
          · obtain ⟨timer, inReady, fired⟩ := List.mem_flatMap.1 timer
            rw [(knows_iff loaded bundle).1 (timers timer inReady bundle fired)] at unknown
            cases unknown
  | moved elsewhere => exact absurd rfl (elsewhere ready choices)
  | all elsewhere => exact absurd rfl (elsewhere ready choices)

/-- The batches that are left lose nothing exactly if the next one is handed over, or
none of them has a loaned message. -/
theorem nextBatch_loses_iff {enqueueOk : Bool} {s' : RunningExecutor}
    (moved : e.systemStep p.executor (.nextBatch enqueueOk) = some s') :
    loans (e.discarded p.executor s' (.nextBatch enqueueOk)) = [] ↔
      e.KeepsLoans p (.step (.nextBatch enqueueOk)) := by
  simp only [ExecutorState.systemStep] at moved
  split at moved
  · rename_i at_
    cases moved
    simp [ExecutorState.discarded, RunningExecutor.unwound, ExecutorState.KeepsLoans, at_, Cycle.pending, loans]
  · rename_i tgid bundles rest at_
    have next : ∀ P : Nat × List BundledExecutable → Prop,
        (∀ batch ∈ p.executor.cycle.pending.head?, P batch) ↔ P (tgid, bundles) := by
      intro P
      simp [at_, Cycle.pending]
    simp only [ExecutorState.discarded, RunningExecutor.unwound, ExecutorState.KeepsLoans, next]
    split at moved
    · rename_i empty
      cases moved
      exact ⟨fun _ => Or.inr (Or.inl (List.isEmpty_iff.1 empty)), fun _ => rfl⟩
    · rename_i some_
      have nonempty : bundles ≠ [] := fun empty => some_ (List.isEmpty_iff.2 empty)
      split at moved
      · rename_i gone
        cases moved
        refine ⟨fun none_ => Or.inl none_, fun keeps => ?_⟩
        rcases keeps with none_ | empty | ⟨present, -⟩
        · exact none_
        · exact absurd empty nonempty
        · rw [Option.isNone_iff_eq_none.1 gone] at present
          cases present
      · rename_i present
        split at moved
        · rename_i failed
          cases moved
          refine ⟨fun none_ => Or.inl none_, fun keeps => ?_⟩
          rcases keeps with none_ | empty | ⟨-, enqueues⟩
          · exact none_
          · exact absurd empty nonempty
          · rw [enqueues] at failed
            cases failed
        · rename_i enqueues
          obtain ⟨s₁, -, rfl⟩ := Option.map_eq_some_iff.1 moved
          refine ⟨fun _ => Or.inr (Or.inr ⟨?_, by simpa using enqueues⟩), fun _ => rfl⟩
          exact Option.isSome_iff_ne_none.2 fun none_ => present (Option.isNone_iff_eq_none.2 none_)
  · cases moved

/-- **The condition is exact**: a step meets it if and only if it destroys no loaned
message that has not been returned. -/
theorem loses_iff (loaded : e.callbackHandleToThreadgroupId = some handles)
    (inv : SystemInv e handles p.executor)
    (sole : ∀ tgid g, p.executor.groups tgid = some g → g.SoleMutexThread) {label : LoanLabel}
    (stepped : e.loanStep p label = some p') : e.lost p p' label = [] ↔ e.KeepsLoans p label := by
  cases label with
  | join tgid =>
      obtain ⟨g, at_, -, rfl⟩ := loanStep_join stepped
      simp only [ExecutorState.lost, ExecutorState.KeepsLoans, at_, Option.mem_def, Option.some.injEq,
        forall_eq']
  | step label =>
      obtain ⟨s', moved, rfl⟩ := loanStep_step stepped
      cases label with
      | populate ready choices => exact populate_loses_iff loaded moved
      | nextBatch enqueueOk => exact nextBatch_loses_iff moved
      | updatePrio =>
          obtain ⟨-, -, nothing⟩ := systemStep_updatePrio inv sole moved
          refine ⟨fun _ => trivial, fun _ => ?_⟩
          show loans (e.discarded p.executor s' .updatePrio) = []
          rw [nothing]
          rfl
      | _ => exact ⟨fun _ => trivial, fun _ => rfl⟩

/-- The invariant of a run. -/
structure LoanInv (e : ExecutorState) (handles : UnorderedMap Ptr Nat) (p : LoanedExecutor) : Prop where
  system : SystemInv e handles p.executor
  accounted : p.Accounted e
  givenBack : p.GivenBack e

/-- **A step gives back what it destroys exactly if it meets the condition.** -/
theorem LoanInv.step {final : CallbackRegistry} {timing : TimingExport}
    (started : ExecutorState.Started e final timing)
    (inv : LoanInv e timing.callbackHandleToThreadgroupId p) {label : LoanLabel}
    (stepped : e.loanStep p label = some p') :
    SystemInv e timing.callbackHandleToThreadgroupId p'.executor ∧ p'.Accounted e ∧
      (p'.GivenBack e ↔ e.KeepsLoans p label) := by
  have sole : ∀ tgid g, p.executor.groups tgid = some g → g.SoleMutexThread :=
    fun tgid g at_ => inv.system.soleMutexThread started at_
  obtain ⟨system, accounted, account⟩ := loanStep_account started.handles inv.system sole stepped
  refine ⟨system, accounted inv.accounted, ?_⟩
  rw [← loses_iff started.handles inv.system sole stepped]
  constructor
  · intro givenBack
    refine List.eq_nil_iff_forall_not_mem.2 fun loan => List.count_eq_zero.1 ?_
    have before := inv.givenBack loan
    have after := givenBack loan
    have here := account loan
    omega
  · intro nothing loan
    have before := inv.givenBack loan
    have here := account loan
    rw [nothing, List.count_nil] at here
    omega

end Run

end PreemptiveExecutor
