/-
# Executor.Classification — what `classify_callback_groups` moves

The loop looks at a pending group and moves it before it looks at the next one.  A mixed
group ends it with an exception, with the groups before it moved and all of them still
pending (`classifyGroups_outcome`).  So a classification that throws has left everything
as it was only if nothing was moved before the mixed group (`classify_atomic_iff`).
-/
import PreemptiveExecutor.Theory.Loop
import PreemptiveExecutor.Registry.Completeness
import PreemptiveExecutor.Executor.Startup

namespace PreemptiveExecutor

open Theory
open CallbackRegistry (subscriptionGroup)

set_option autoImplicit false

namespace ExecutorState

variable {handles : UnorderedMap Ptr Nat} {base : BaseExecutor}

/-- The group has a subscription or timer of the timing information. -/
def RealTime (handles : UnorderedMap Ptr Nat) (group : CallbackGroup) : Prop :=
  ∃ ptr ∈ group.dispatched, ptr ∈ handles

/-- The group has one of the timing information, and another one. -/
def Mixed (handles : UnorderedMap Ptr Nat) (group : CallbackGroup) : Prop :=
  RealTime handles group ∧ ∃ ptr ∈ group.dispatched, ptr ∉ handles

/-- The entry is a live group, and it is mixed. -/
def MixedEntry (handles : UnorderedMap Ptr Nat) (entry : WeakGroupEntry) : Prop :=
  ∃ group node, entry = ⟨some group, some node⟩ ∧ Mixed handles group

/-- The live groups without a real-time entity, with their nodes. -/
def nonRealTime (handles : UnorderedMap Ptr Nat) (entries : WeakCallbackGroupsToNodesMap) :
    List (CallbackGroup × Ptr) :=
  entries.filterMap fun entry => match entry.group, entry.node with
    | some group, some node => if hasRt handles group then none else some (group, node)
    | _, _ => none

theorem hasRt_iff {group : CallbackGroup} : hasRt handles group = true ↔ RealTime handles group := by
  unfold hasRt RealTime
  simp only [List.any_eq_true, decide_eq_true_eq]

theorem mixed_iff {group : CallbackGroup} :
    (hasRt handles group && hasNonRt handles group) = true ↔ Mixed handles group := by
  rw [Bool.and_eq_true, hasRt_iff]
  unfold hasNonRt Mixed
  simp only [List.any_eq_true, decide_eq_true_eq]

theorem mem_nonRealTime {entries : WeakCallbackGroupsToNodesMap} {group : CallbackGroup} {node : Ptr} :
    (group, node) ∈ nonRealTime handles entries ↔
      (⟨some group, some node⟩ : WeakGroupEntry) ∈ entries ∧ ¬ RealTime handles group := by
  unfold nonRealTime
  rw [List.mem_filterMap]
  constructor
  · rintro ⟨⟨group', node'⟩, member, isSome⟩
    cases group' with
    | none => cases isSome
    | some group' =>
        cases node' with
        | none => cases isSome
        | some node' =>
            simp only at isSome
            split at isSome
            · cases isSome
            · rename_i notRt
              cases isSome
              exact ⟨member, fun realTime => notRt (hasRt_iff.2 realTime)⟩
  · rintro ⟨member, notRt⟩
    refine ⟨_, member, ?_⟩
    simp only
    rw [if_neg fun rt => notRt (hasRt_iff.1 rt)]

/-! ## The loop -/

/-- Each live group of `entries` has been put into one of two places, the real-time ones
into `weak_groups_to_nodes_` and the others into `non_rt_callback_groups`. -/
structure Placed (handles : UnorderedMap Ptr Nat) (entries : WeakCallbackGroupsToNodesMap)
    (e e' : ExecutorState) : Prop where
  realTime : ∀ entry, entry ∈ e'.weakGroupsToNodes ↔ entry ∈ e.weakGroupsToNodes ∨
    ∃ group node, entry = ⟨some group, some node⟩ ∧ entry ∈ entries ∧ RealTime handles group
  nonRealTime : e'.nonRtCallbackGroups = e.nonRtCallbackGroups ++ nonRealTime handles entries

/-- In the loop the groups that have been placed are still pending. -/
structure Moved (handles : UnorderedMap Ptr Nat) (entries : WeakCallbackGroupsToNodesMap)
    (e e' : ExecutorState) : Prop extends Placed handles entries e e' where
  pending : e'.pendingWeakGroupsToNodes = e.pendingWeakGroupsToNodes

theorem Moved.nil (e : ExecutorState) : Moved handles [] e e := by
  refine ⟨⟨fun entry => (or_iff_left ?_).symm, (List.append_nil _).symm⟩, rfl⟩
  rintro ⟨group, node, -, member, -⟩
  cases member

theorem Moved.cons {entry : WeakGroupEntry} {entries : WeakCallbackGroupsToNodesMap} {e e₁ e' : ExecutorState}
    (first : Moved handles [entry] e e₁) (others : Moved handles entries e₁ e') :
    Moved handles (entry :: entries) e e' := by
  refine ⟨⟨fun other => ?_, ?_⟩, others.pending.trans first.pending⟩
  · rw [others.realTime, first.realTime, or_assoc]
    refine or_congr_right ⟨?_, ?_⟩
    · rintro (⟨group, node, same, member, realTime⟩ | ⟨group, node, same, member, realTime⟩)
      · rw [List.mem_singleton] at member
        exact ⟨group, node, same, member ▸ List.mem_cons_self, realTime⟩
      · exact ⟨group, node, same, List.mem_cons_of_mem _ member, realTime⟩
    · rintro ⟨group, node, same, member, realTime⟩
      rcases List.mem_cons.1 member with rfl | inRest
      · exact Or.inl ⟨group, node, same, List.mem_singleton_self _, realTime⟩
      · exact Or.inr ⟨group, node, same, inRest, realTime⟩
  · rw [others.nonRealTime, first.nonRealTime, List.append_assoc]
    unfold ExecutorState.nonRealTime
    rw [← List.filterMap_append, List.singleton_append]

section Loop

variable (inserts : ∀ group node weakGroups, ∃ weakGroups',
  base.addCallbackGroupToMap group node weakGroups = .ok weakGroups')
include inserts

/-- A live group that is not mixed is moved to one of the two places. -/
theorem classifyGroup_live {group : CallbackGroup} (node : Ptr) (notMixed : ¬ Mixed handles group)
    (e : ExecutorState) :
    ∃ e', classifyGroup base handles e ⟨some group, some node⟩ = .ok e' ∧
      Moved handles [⟨some group, some node⟩] e e' := by
  rw [← mixed_iff] at notMixed
  unfold classifyGroup
  simp only [if_neg notMixed]
  by_cases rt : hasRt handles group = true
  · obtain ⟨weakGroups', added⟩ := inserts group node e.weakGroupsToNodes
    rw [if_pos rt, added]
    refine ⟨_, rfl, ⟨fun entry => ?_, ?_⟩, rfl⟩
    · rw [base.adds group node _ _ added, or_comm]
      refine or_congr_right ⟨?_, ?_⟩
      · rintro rfl
        exact ⟨group, node, rfl, List.mem_singleton_self _, hasRt_iff.1 rt⟩
      · rintro ⟨_, _, -, member, -⟩
        exact List.mem_singleton.1 member
    · have none_ : nonRealTime handles [⟨some group, some node⟩] = [] := by
        simp only [nonRealTime, List.filterMap_cons, List.filterMap_nil, rt, if_true]
      rw [none_, List.append_nil]
  · rw [if_neg rt]
    refine ⟨_, rfl, ⟨fun entry => (or_iff_left ?_).symm, ?_⟩, rfl⟩
    · rintro ⟨group', node', rfl, member, realTime⟩
      cases List.mem_singleton.1 member
      exact rt (hasRt_iff.2 realTime)
    · have one : nonRealTime handles [⟨some group, some node⟩] = [(group, node)] := by
        simp only [nonRealTime, List.filterMap_cons, List.filterMap_nil, rt, Bool.false_eq_true, if_false]
      rw [one]

/-- **One group**: a mixed one throws, any other is moved. -/
theorem classifyGroup_outcome (e : ExecutorState) (entry : WeakGroupEntry) :
    (MixedEntry handles entry ∧ classifyGroup base handles e entry =
      .error ⟨.runtimeError "Mixed RT and non-RT callbacks in a single callback group", e⟩) ∨
    (¬ MixedEntry handles entry ∧
      ∃ e', classifyGroup base handles e entry = .ok e' ∧ Moved handles [entry] e e') := by
  have dead : ∀ entry : WeakGroupEntry, (∀ group node, entry ≠ ⟨some group, some node⟩) →
      classifyGroup base handles e entry = .ok e → ¬ MixedEntry handles entry ∧
        ∃ e', classifyGroup base handles e entry = .ok e' ∧ Moved handles [entry] e e' := by
    intro entry isDead ran
    refine ⟨fun ⟨group, node, same, _⟩ => isDead group node same, e, ran,
      ⟨fun other => (or_iff_left ?_).symm, ?_⟩, rfl⟩
    · rintro ⟨group, node, rfl, member, -⟩
      exact isDead group node (List.mem_singleton.1 member).symm
    · have none_ : nonRealTime handles [entry] = [] := by
        refine List.eq_nil_iff_forall_not_mem.2 fun ⟨group, node⟩ member => ?_
        exact isDead group node (List.mem_singleton.1 (mem_nonRealTime.1 member).1).symm
      rw [none_, List.append_nil]
  obtain ⟨group, node⟩ := entry
  cases group with
  | none => exact Or.inr (dead ⟨none, node⟩ (fun _ _ same => by cases same) rfl)
  | some group =>
      cases node with
      | none => exact Or.inr (dead ⟨some group, none⟩ (fun _ _ same => by cases same) rfl)
      | some node =>
          by_cases mixed : Mixed handles group
          · refine Or.inl ⟨⟨group, node, rfl, mixed⟩, ?_⟩
            unfold classifyGroup
            simp only [if_pos (mixed_iff.2 mixed)]
          · refine Or.inr ⟨?_, classifyGroup_live inserts node mixed e⟩
            rintro ⟨group', node', same, mixed'⟩
            cases same
            exact mixed mixed'

/-- **The loop**: it moves all groups, or throws at the first mixed one with those before
it moved. -/
theorem classifyGroups_outcome (entries : WeakCallbackGroupsToNodesMap) :
    ∀ e : ExecutorState,
      ((∀ entry ∈ entries, ¬ MixedEntry handles entry) ∧
        ∃ e', entries.foldlM (classifyGroup base handles) e = .ok e' ∧ Moved handles entries e e') ∨
      ∃ before mixed after e', entries = before ++ mixed :: after ∧
        (∀ entry ∈ before, ¬ MixedEntry handles entry) ∧ MixedEntry handles mixed ∧
        entries.foldlM (classifyGroup base handles) e =
          .error ⟨.runtimeError "Mixed RT and non-RT callbacks in a single callback group", e'⟩ ∧
        Moved handles before e e' := by
  induction entries with
  | nil => exact fun e => Or.inl ⟨fun _ member => (by cases member), e, rfl, Moved.nil e⟩
  | cons entry entries ih =>
      intro e
      rw [List.foldlM_cons]
      rcases classifyGroup_outcome inserts e entry with ⟨mixed, threw⟩ | ⟨notMixed, e₁, ran, first⟩
      · exact Or.inr ⟨[], entry, entries, e, rfl, fun _ member => (by cases member), mixed, by rw [threw]; rfl,
          Moved.nil e⟩
      · have next : (classifyGroup base handles e entry >>= fun e =>
            entries.foldlM (classifyGroup base handles) e) = entries.foldlM (classifyGroup base handles) e₁ := by
          rw [ran]
          rfl
        rw [next]
        rcases ih e₁ with ⟨noneMixed, e', ran', others⟩ |
          ⟨before, mixed, after, e', rfl, noneMixed, isMixed, threw, others⟩
        · exact Or.inl ⟨List.forall_mem_cons.2 ⟨notMixed, noneMixed⟩, e', ran', first.cons others⟩
        · exact Or.inr ⟨entry :: before, mixed, after, e', rfl, List.forall_mem_cons.2 ⟨notMixed, noneMixed⟩,
            isMixed, threw, first.cons others⟩

end Loop

/-! ## All or nothing -/

/-- The groups are where they were. -/
structure SameGroups (e e' : ExecutorState) : Prop where
  weakGroupsToNodes : ∀ entry, entry ∈ e'.weakGroupsToNodes ↔ entry ∈ e.weakGroupsToNodes
  nonRtCallbackGroups : e'.nonRtCallbackGroups = e.nonRtCallbackGroups
  pending : e'.pendingWeakGroupsToNodes = e.pendingWeakGroupsToNodes

/-- All pending groups are placed, or a mixed one is the reason that none is. -/
def AllOrNothing (base : BaseExecutor) (handles : UnorderedMap Ptr Nat) (e : ExecutorState) : Prop :=
  (∃ e', classifyCallbackGroups base e = .ok e' ∧ Placed handles e.pendingWeakGroupsToNodes e e' ∧
    e'.pendingWeakGroupsToNodes = []) ∨
  ∃ failed, classifyCallbackGroups base e = .error failed ∧
    (∃ entry ∈ e.pendingWeakGroupsToNodes, MixedEntry handles entry) ∧ SameGroups e failed.executor

/-- Every live group before the first mixed one is a real-time group that is in
`weak_groups_to_nodes_` anyway. -/
def NothingBeforeMixed (handles : UnorderedMap Ptr Nat) (e : ExecutorState) : Prop :=
  ∀ before mixed after, e.pendingWeakGroupsToNodes = before ++ mixed :: after →
    (∀ entry ∈ before, ¬ MixedEntry handles entry) → MixedEntry handles mixed →
    ∀ group node, (⟨some group, some node⟩ : WeakGroupEntry) ∈ before →
      RealTime handles group ∧ (⟨some group, some node⟩ : WeakGroupEntry) ∈ e.weakGroupsToNodes

/-- Moving groups changes nothing exactly if they were there. -/
theorem Moved.sameGroups_iff {entries : WeakCallbackGroupsToNodesMap} {e e' : ExecutorState}
    (moved : Moved handles entries e e') :
    SameGroups e e' ↔ ∀ group node, (⟨some group, some node⟩ : WeakGroupEntry) ∈ entries →
      RealTime handles group ∧ (⟨some group, some node⟩ : WeakGroupEntry) ∈ e.weakGroupsToNodes := by
  constructor
  · intro same group node member
    have realTime : RealTime handles group := by
      by_contra notRt
      have placed := moved.nonRealTime.symm.trans same.nonRtCallbackGroups
      have listed := mem_nonRealTime.2 ⟨member, notRt⟩
      rw [List.append_right_eq_self.1 placed] at listed
      cases listed
    have added := (moved.realTime _).2 (Or.inr ⟨group, node, rfl, member, realTime⟩)
    exact ⟨realTime, (same.weakGroupsToNodes _).1 added⟩
  · intro there
    refine ⟨fun entry => (moved.realTime entry).trans (or_iff_left_of_imp ?_), ?_, moved.pending⟩
    · rintro ⟨group, node, rfl, member, -⟩
      exact (there group node member).2
    · have none_ : nonRealTime handles entries = [] :=
        List.eq_nil_iff_forall_not_mem.2 fun ⟨group, node⟩ listed =>
          (mem_nonRealTime.1 listed).2 (there group node (mem_nonRealTime.1 listed).1).1
      rw [moved.nonRealTime, none_, List.append_nil]

/-- A classification is its loop, after which nothing is pending. -/
theorem classifyCallbackGroups_of_loop {e e' : ExecutorState} (loaded : e.callbackHandleToThreadgroupId = some handles)
    (ran : e.pendingWeakGroupsToNodes.foldlM (classifyGroup base handles) e = .ok e') :
    classifyCallbackGroups base e = .ok { e' with pendingWeakGroupsToNodes := [] } := by
  unfold classifyCallbackGroups
  simp only [loaded, ran]
  rfl

theorem classifyCallbackGroups_of_throw {e : ExecutorState} {failed : Failed}
    (loaded : e.callbackHandleToThreadgroupId = some handles)
    (ran : e.pendingWeakGroupsToNodes.foldlM (classifyGroup base handles) e = .error failed) :
    classifyCallbackGroups base e = .error failed := by
  unfold classifyCallbackGroups
  simp only [loaded, ran]
  rfl

/-- **A classification is all or nothing** exactly if nothing is moved before a mixed
group; without timing information it throws at once and moves nothing. -/
theorem classify_atomic_iff
    (inserts : ∀ group node weakGroups, ∃ weakGroups',
      base.addCallbackGroupToMap group node weakGroups = .ok weakGroups') (e : ExecutorState) :
    (∀ handles, e.callbackHandleToThreadgroupId = some handles →
      (AllOrNothing base handles e ↔ NothingBeforeMixed handles e)) ∧
    (e.callbackHandleToThreadgroupId = none → classifyCallbackGroups base e =
      .error ⟨.runtimeError "Timing info missing before classifying callback groups", e⟩) := by
  refine ⟨fun handles loaded => ?_, fun missing => ?_⟩
  · rcases @classifyGroups_outcome handles base inserts e.pendingWeakGroupsToNodes e with
      ⟨noneMixed, e', ran, moved⟩ | ⟨before, mixed, after, e', isSplit, noneMixed, isMixed, ran, moved⟩
    · refine iff_of_true (Or.inl ⟨_, classifyCallbackGroups_of_loop loaded ran,
        ⟨moved.realTime, moved.nonRealTime⟩, rfl⟩) ?_
      intro before mixed after isSplit _ isMixed
      exact absurd isMixed (noneMixed mixed (isSplit ▸ List.mem_append_right _ List.mem_cons_self))
    · have threw := classifyCallbackGroups_of_throw loaded ran
      constructor
      · rintro (⟨e'', returned, -⟩ | ⟨failed, threw', -, same⟩)
        · rw [threw] at returned
          cases returned
        · rw [threw] at threw'
          cases threw'
          intro before' mixed' after' isSplit' noneMixed' isMixed'
          have sameBefore : before = before' :=
            Loop.first_unique (isSplit.symm.trans isSplit') noneMixed noneMixed' isMixed isMixed'
          rw [← sameBefore]
          exact moved.sameGroups_iff.1 same
      · intro nothing
        refine Or.inr ⟨_, threw, ⟨mixed, ?_, isMixed⟩,
          moved.sameGroups_iff.2 (nothing before mixed after isSplit noneMixed isMixed)⟩
        rw [isSplit]
        exact List.mem_append_right _ List.mem_cons_self
  · unfold classifyCallbackGroups
    simp only [missing]

/-! ### A mixed group among others -/

/-- An executor that knows the handles 10 and 11, with these live groups to classify. -/
def classifying (groups : List CallbackGroup) : ExecutorState :=
  { userChains := []
    pendingWeakGroupsToNodes := groups.map fun group => ⟨some group, some 100⟩
    callbackHandleToThreadgroupId := some (((∅ : UnorderedMap Ptr Nat).insert 10 1).insert 11 1) }

theorem accepting_inserts (group : CallbackGroup) (node : Ptr) (weakGroups : WeakCallbackGroupsToNodesMap) :
    ∃ weakGroups', BaseExecutor.accepting.addCallbackGroupToMap group node weakGroups = .ok weakGroups' :=
  ⟨_, rfl⟩

/-- A group of real-time callbacks and one without any. -/
def apartGroups : List CallbackGroup :=
  [subscriptionGroup 1 .reentrant [10, 11], subscriptionGroup 2 .reentrant [12]]

theorem classify_atomic_apart :
    AllOrNothing .accepting (((∅ : UnorderedMap Ptr Nat).insert 10 1).insert 11 1) (classifying apartGroups) := by
  refine ((classify_atomic_iff accepting_inserts _).1 _ rfl).2 ?_
  rintro before mixed after isSplit - ⟨group, node, rfl, isMixed⟩
  have member : (⟨some group, some node⟩ : WeakGroupEntry) ∈
      (classifying apartGroups).pendingWeakGroupsToNodes :=
    isSplit ▸ List.mem_append_right before List.mem_cons_self
  have isGroup : (group = subscriptionGroup 1 .reentrant [10, 11] ∧ node = 100) ∨
      (group = subscriptionGroup 2 .reentrant [12] ∧ node = 100) := by
    simpa [classifying, apartGroups] using member
  rw [← mixed_iff] at isMixed
  rcases isGroup with ⟨rfl, -⟩ | ⟨rfl, -⟩ <;> exact absurd isMixed (by decide)

/-- A group of real-time callbacks, and a mixed one after it. -/
def halfGroups : List CallbackGroup :=
  [subscriptionGroup 1 .reentrant [10], subscriptionGroup 2 .reentrant [11, 12]]

/-- **A mixed group can come too late**: the group before it has been moved, and stays
pending too. -/
theorem classify_half :
    ∃ failed, classifyCallbackGroups .accepting (classifying halfGroups) = .error failed ∧
      failed.executor.weakGroupsToNodes = [⟨some (subscriptionGroup 1 .reentrant [10]), some 100⟩] ∧
      ¬ AllOrNothing .accepting (((∅ : UnorderedMap Ptr Nat).insert 10 1).insert 11 1)
        (classifying halfGroups) := by
  refine ⟨_, rfl, rfl, ?_⟩
  rintro (⟨e', returned, -⟩ | ⟨failed, threw, -, same⟩)
  · cases returned
  · cases threw
    have there := (same.weakGroupsToNodes ⟨some (subscriptionGroup 1 .reentrant [10]), some 100⟩).1 (by decide)
    exact absurd there (by decide)

end ExecutorState

end PreemptiveExecutor
