/-
# Executor.NodeOwners — which executor has which nodes and callback groups

`add_node` takes a node by `exchange(true)` on its `associated_with_executor` flag, as
every executor does.  So over all histories of a process the flags are exact, and no two
executors ever have one node (`nodes_exclusive`).  The callback groups follow their
nodes: each group an executor has anywhere, pending, waited for or handed to the
non-real-time executor, belongs to a node of that executor, so no other executor has the
group (`groups_exclusive`).
-/
import PreemptiveExecutor.Theory.Custody
import PreemptiveExecutor.Executor.SpinCalls

namespace PreemptiveExecutor

open Theory

set_option autoImplicit false

namespace Process

variable {p p' : Process}

/-! ## Nodes -/

/-- Who has a node: the other executors of the process, or one of this kind. -/
def Has (p : Process) : Option Nat → Ptr → Prop
  | none, node => node ∈ p.others
  | some id, node => ∃ x, p.executors id = some x ∧ node ∈ x.weakNodes

/-- The nodes of each executor are listed once. -/
structure Listed (p : Process) : Prop where
  others : p.others.Nodup
  weakNodes : ∀ id x, p.executors id = some x → x.weakNodes.Nodup

/-- What a step of an executor does to its nodes. -/
inductive NodesMove (p : Process) (id : Nat) (x : LiveExecutor) (p' : Process) : Prop where
  | kept (flags : p'.associated = p.associated)
      (nodes : ∃ x', p'.executors id = some x' ∧ x'.weakNodes = x.weakNodes)
  | took (node : Ptr) (free : p.associated node = false)
      (flags : p'.associated = Function.update p.associated node true)
      (nodes : ∃ x', p'.executors id = some x' ∧ x'.weakNodes = x.weakNodes ++ [node])
  | gaveUp (flags : p'.associated = fun node => p.associated node && decide (node ∉ x.weakNodes))
      (gone : p'.executors id = none)

theorem Acts.nodes {id : Nat} {x : LiveExecutor} {action : ExecutorAction} (acts : Acts p id x action p') :
    NodesMove p id x p' ∧ p'.others = p.others := by
  cases acts with
  | added free => exact ⟨.took _ free rfl ⟨_, Function.update_self .., rfl⟩, rfl⟩
  | destroyed outside => exact ⟨.gaveUp rfl (Function.update_self ..), rfl⟩
  | _ => exact ⟨.kept rfl ⟨_, Function.update_self .., rfl⟩, rfl⟩

/-- The parties that a step of executor `id` leaves alone. -/
theorem has_elsewhere {id : Nat} (others : p'.others = p.others)
    (elsewhere : ∀ id', id' ≠ id → p'.executors id' = p.executors id') {h : Option Nat} (other : h ≠ some id)
    (node : Ptr) : p'.Has h node ↔ p.Has h node := by
  cases h with
  | none => rw [Has, Has, others]
  | some id' => rw [Has, Has, elsewhere id' fun same => other (congrArg some same)]

theorem has_some {id : Nat} {x : LiveExecutor} (at_ : p.executors id = some x) (node : Ptr) :
    p.Has (some id) node ↔ node ∈ x.weakNodes := by
  rw [Has, at_]
  exact ⟨fun ⟨_, same, member⟩ => Option.some.inj same ▸ member, fun member => ⟨x, rfl, member⟩⟩

theorem NodesMove.custody {id : Nat} {x : LiveExecutor} (moved : NodesMove p id x p')
    (at_ : p.executors id = some x) (others : p'.others = p.others)
    (elsewhere : ∀ id', id' ≠ id → p'.executors id' = p.executors id')
    (custody : Custody p.associated p.Has) : Custody p'.associated p'.Has := by
  cases moved with
  | kept flags nodes =>
      obtain ⟨x', found, same⟩ := nodes
      rw [flags]
      refine custody.congr fun h node => ?_
      by_cases here : h = some id
      · rw [here, has_some found, has_some at_, same]
      · exact has_elsewhere others elsewhere here node
  | took node free flags nodes =>
      obtain ⟨x', found, same⟩ := nodes
      rw [flags]
      refine custody.take free (h := some id) fun h node' => ?_
      by_cases here : h = some id
      · rw [here, has_some found, has_some at_, same, List.mem_append, List.mem_singleton, eq_self,
          true_and]
      · rw [has_elsewhere others elsewhere here node', or_iff_left fun ⟨same, _⟩ => here same]
  | gaveUp flags gone =>
      rw [flags]
      refine custody.release (h := some id) (fun node member => (has_some at_ node).2 member) fun h node => ?_
      by_cases here : h = some id
      · subst here
        rw [has_some at_, Has, gone]
        exact ⟨fun ⟨_, none_, _⟩ => (nomatch none_), fun ⟨member, stays⟩ => absurd ⟨rfl, member⟩ stays⟩
      · rw [has_elsewhere others elsewhere here node]
        exact (and_iff_left fun ⟨same, _⟩ => here same).symm

theorem listed_step {label : ProcessLabel} (listed : Listed p) (custody : Custody p.associated p.Has)
    (stepped : system.step p label = some p') : Listed p' := by
  have free_ : ∀ {h node}, p.associated node = false → ¬ p.Has h node := fun free has => by
    rw [(custody.flagged _).2 ⟨_, has⟩] at free
    cases free
  cases step_cases stepped with
  | @construct id userChains free =>
      refine ⟨listed.others, fun id' x' found => ?_⟩
      by_cases same : id' = id
      · subst same
        cases setExecutor_self found
        exact List.nodup_nil
      · exact listed.weakNodes id' x' ((Function.update_of_ne same _ p.executors).symm.trans found)
  | @acts id x action _ at_ moves =>
      obtain ⟨nodes, others⟩ := moves.nodes
      refine ⟨others ▸ listed.others, fun id' x' found => ?_⟩
      by_cases same : id' = id
      · subst same
        cases nodes with
        | kept flags nodes =>
            obtain ⟨x₁, found₁, same⟩ := nodes
            cases found₁.symm.trans found
            exact same ▸ listed.weakNodes id' x at_
        | took node free flags nodes =>
            obtain ⟨x₁, found₁, same⟩ := nodes
            cases found₁.symm.trans found
            rw [same, List.nodup_append]
            refine ⟨listed.weakNodes id' x at_, List.nodup_singleton _, fun a member b new => ?_⟩
            rintro rfl
            cases List.mem_singleton.1 new
            exact free_ free ((has_some at_ _).2 member)
        | gaveUp flags gone => cases gone.symm.trans found
      · exact listed.weakNodes id' x' ((moves.elsewhere same).symm.trans found)
  | otherTakes free => exact ⟨List.nodup_cons.2 ⟨fun member => free_ (h := none) free member, listed.others⟩, listed.weakNodes⟩
  | otherGivesUp has => exact ⟨listed.others.erase _, listed.weakNodes⟩

theorem custody_step {label : ProcessLabel} (listed : Listed p) (custody : Custody p.associated p.Has)
    (stepped : system.step p label = some p') : Custody p'.associated p'.Has := by
  cases step_cases stepped with
  | @construct id userChains free =>
      refine custody.congr fun h node => ?_
      by_cases here : h = some id
      · rw [here, has_some (Function.update_self ..), Has, free]
        exact ⟨nofun, fun ⟨_, none_, _⟩ => nomatch none_⟩
      · exact @has_elsewhere p (p.setExecutor id (.construct userChains)) id rfl
          (fun id' other => Function.update_of_ne other _ p.executors) h here node
  | acts at_ moves => exact moves.nodes.1.custody at_ moves.nodes.2 (fun _ other => moves.elsewhere other) custody
  | @otherTakes node free =>
      refine custody.take free (h := none) fun h node' => ?_
      cases h with
      | none => exact List.mem_cons.trans (or_comm.trans (or_congr_right (and_iff_right rfl).symm))
      | some id => exact (or_iff_left fun ⟨same, _⟩ => nomatch same).symm
  | @otherGivesUp node has =>
      have flags : Function.update p.associated node false =
          fun node' => p.associated node' && decide (¬ node' = node) := by
        funext node'
        by_cases same : node' = node
        · subst same
          simp
        · simp [same]
      rw [flags]
      refine custody.release (h := none) (fun node' same => same ▸ has) fun h node' => ?_
      cases h with
      | none =>
          show node' ∈ p.others.erase node ↔ node' ∈ p.others ∧ _
          rw [listed.others.mem_erase_iff, and_comm, eq_self, true_and]
      | some id => exact (and_iff_left fun ⟨same, _⟩ => nomatch same).symm

theorem custody_reachable {meets : Process → ProcessLabel → Prop} (reachable : system.ReachableWhile meets p) :
    Listed p ∧ Custody p.associated p.Has := by
  refine Transition.invariant (fun p => Listed p ∧ Custody p.associated p.Has) (fun p start => ?_)
    (fun p label p' inv _ stepped =>
      ⟨listed_step inv.1 inv.2 stepped, custody_step inv.1 inv.2 stepped⟩) reachable
  rw [show p = Process.start from start]
  refine ⟨⟨List.nodup_nil, by rintro id x ⟨⟩⟩, Custody.none_.congr fun h node => ?_⟩
  cases h with
  | none => exact ⟨nofun, False.elim⟩
  | some id => exact ⟨fun ⟨_, none_, _⟩ => (nomatch none_), False.elim⟩

/-- **No node in two executors, and no flag left set.**  In every state of every history:
a node's flag is set exactly while an executor has the node, then that is the only one,
and it has listed the node once. -/
theorem nodes_exclusive (reachable : system.Reachable p) :
    (∀ node, p.associated node = true ↔ ∃ h, p.Has h node) ∧
      (∀ h h' node, p.Has h node → p.Has h' node → h' = h) ∧
      ∀ id x, p.executors id = some x → x.weakNodes.Nodup :=
  let ⟨listed, custody⟩ := custody_reachable reachable
  ⟨custody.flagged, custody.sole, listed.weakNodes⟩

/-- The second executor is refused the node. -/
theorem nodes_exclusive_refused :
    ∃ p, system.run .start (sampleExecutor 0 100 ++ sampleExecutor 1 100) = some p ∧
      p.Has (some 0) 100 ∧ p.associated 100 = true ∧ ¬ p.Has (some 1) 100 := by
  have values : ((system.run .start (sampleExecutor 0 100 ++ sampleExecutor 1 100)).bind fun p =>
      (p.executors 0).map fun x => x.weakNodes) = some [100] := by decide
  obtain ⟨p, ran, values⟩ := Option.bind_eq_some_iff.1 values
  obtain ⟨x, at_, nodes⟩ := Option.map_eq_some_iff.1 values
  have first : p.Has (some 0) 100 := ⟨x, at_, by rw [nodes]; exact List.mem_singleton.2 rfl⟩
  obtain ⟨flags, sole, -⟩ := nodes_exclusive (Transition.reachableWhile_run (.init rfl) ran)
  exact ⟨p, ran, first, (flags 100).2 ⟨_, first⟩, fun second => by cases sole _ _ 100 first second⟩

end Process

/-! ## Callback groups -/

namespace ExecutorState

/-- Every group that is waited for or handed to the non-real-time executor is paired with
a node. -/
structure Paired (e : ExecutorState) (pairs : Ptr → Ptr → Prop) : Prop where
  waited : ∀ entry ∈ e.weakGroupsToNodes, ∀ group, entry.group = some group →
    ∃ node, entry.node = some node ∧ pairs group.ptr node
  nonRt : ∀ pair ∈ e.nonRtCallbackGroups, pairs pair.1.ptr pair.2

variable {pairs pairs' : Ptr → Ptr → Prop} {e : ExecutorState}

theorem Paired.mono (paired : e.Paired pairs) (weaker : ∀ group node, pairs group node → pairs' group node) :
    e.Paired pairs' where
  waited entry member group isGroup :=
    let ⟨node, isNode, here⟩ := paired.waited entry member group isGroup
    ⟨node, isNode, weaker _ _ here⟩
  nonRt pair member := weaker _ _ (paired.nonRt pair member)

theorem classifyGroup_paired {base : BaseExecutor} {handles : UnorderedMap Ptr Nat} {entry : WeakGroupEntry}
    (here : ∀ group node, entry = ⟨some group, some node⟩ → pairs group.ptr node) (paired : e.Paired pairs) :
    (∀ e', classifyGroup base handles e entry = .ok e' → e'.Paired pairs) ∧
      ∀ failed, classifyGroup base handles e entry = .error failed → failed.executor.Paired pairs := by
  obtain ⟨isGroup, isNode⟩ := entry
  unfold classifyGroup
  split
  · rename_i group node groupIs nodeIs
    cases groupIs
    cases nodeIs
    have pair : pairs group.ptr node := here group node rfl
    split
    · exact ⟨nofun, fun failed threw => by cases threw; exact paired⟩
    · split
      · split
        · exact ⟨nofun, fun failed threw => by cases threw; exact paired⟩
        · rename_i weakGroupsToNodes added
          refine ⟨fun e' returned => ?_, nofun⟩
          cases returned
          refine ⟨fun entry member group' isGroup => ?_, paired.nonRt⟩
          rcases (base.adds _ _ _ _ added entry).1 member with rfl | old
          · cases isGroup
            exact ⟨node, rfl, pair⟩
          · exact paired.waited entry old group' isGroup
      · refine ⟨fun e' returned => ?_, nofun⟩
        cases returned
        refine ⟨paired.waited, fun pair' member => ?_⟩
        rcases List.mem_append.1 member with old | new
        · exact paired.nonRt pair' old
        · cases List.mem_singleton.1 new
          exact pair
  · exact ⟨fun e' returned => by cases returned; exact paired, nofun⟩

theorem spawnWorkerGroups_threw_groups {base : BaseExecutor} {failed : Failed}
    (threw : e.spawnWorkerGroups base = .error failed) :
    failed.executor.weakGroupsToNodes = e.weakGroupsToNodes ∧
      failed.executor.nonRtCallbackGroups = e.nonRtCallbackGroups := by
  unfold spawnWorkerGroups at threw
  split at threw
  · split at threw
    · cases threw; exact ⟨rfl, rfl⟩
    · split at threw
      · cases threw; exact ⟨rfl, rfl⟩
      · cases threw
  · cases threw; exact ⟨rfl, rfl⟩

/-- Whether it returns or throws, a classification pairs the groups as they were pending. -/
theorem classifyCallbackGroups_paired {base : BaseExecutor}
    (pending : ∀ group node, (⟨some group, some node⟩ : WeakGroupEntry) ∈ e.pendingWeakGroupsToNodes →
      pairs group.ptr node) (paired : e.Paired pairs) :
    (∀ e', e.classifyCallbackGroups base = .ok e' → e'.Paired pairs) ∧
      ∀ failed, e.classifyCallbackGroups base = .error failed → failed.executor.Paired pairs := by
  unfold classifyCallbackGroups
  split
  · exact ⟨nofun, fun failed threw => by cases threw; exact paired⟩
  · rename_i handles _
    have step : ∀ s, ∀ entry ∈ e.pendingWeakGroupsToNodes, Paired s pairs →
        (∀ s', classifyGroup base handles s entry = .ok s' → s'.Paired pairs) ∧
          ∀ failed, classifyGroup base handles s entry = .error failed → failed.executor.Paired pairs :=
      fun s entry member paired =>
        classifyGroup_paired (fun group node same => pending group node (same ▸ member)) paired
    obtain ⟨returns, throws⟩ := Loop.foldlM_rule (fun s => Paired s pairs)
      (fun failed : Failed => failed.executor.Paired pairs) e.pendingWeakGroupsToNodes step paired
    cases ran : e.pendingWeakGroupsToNodes.foldlM (classifyGroup base handles) e with
    | error failed => exact ⟨nofun, fun failed' threw => by cases threw; exact throws _ ran⟩
    | ok s =>
        refine ⟨fun e' returned => ?_, nofun⟩
        cases returned
        exact ⟨(returns s ran).waited, (returns s ran).nonRt⟩

end ExecutorState

/-- A pass over the pending map finds its pairs. -/
theorem Locks.mem_view {locks : Locks} {pending : UnorderedMap Ptr Ptr} {group : CallbackGroup} {node : Ptr}
    (member : (⟨some group, some node⟩ : WeakGroupEntry) ∈ locks.view pending) :
    pending.lookup group.ptr = some node := by
  obtain ⟨pair, inOrder, same⟩ := List.mem_map.1 member
  obtain ⟨isGroup, isNode⟩ := WeakGroupEntry.mk.inj same
  rw [locks.group_ptr _ _ isGroup]
  split at isNode
  · cases isNode
    exact ((locks.order_same pending).lookup_eq pair.1).trans (UnorderedMap.mem_entries_iff.1 inOrder)
  · cases isNode

/-- What `add_node` puts into the pending map. -/
theorem LiveExecutor.lookup_addGroup {node : Ptr} {groups : List (Option NodeGroup)}
    {pending : UnorderedMap Ptr Ptr} {group owner : Ptr}
    (found : (groups.foldl (addGroup node) pending).lookup group = some owner) :
    pending.lookup group = some owner ∨ owner = node ∧ ∃ g, some g ∈ groups ∧ g.ptr = group := by
  induction groups generalizing pending with
  | nil => exact Or.inl found
  | cons first groups ih =>
      rcases ih found with before | ⟨same, g, member, isGroup⟩
      · cases first with
        | none => exact Or.inl before
        | some g =>
            rw [addGroup] at before
            split at before
            · exact Or.inl before
            · rw [UnorderedMap.lookup_insert_eq] at before
              split at before
              · rename_i same
                cases before
                exact Or.inr ⟨rfl, g, List.mem_cons_self, same.symm⟩
              · exact Or.inl before
      · exact Or.inr ⟨same, g, List.mem_cons_of_mem _ member, isGroup⟩

/-- A group is of the node that `for_each_callback_group` hands it out for, in `add_node` and in a
wait. -/
def ProcessLabel.Respects (owner : Ptr → Ptr) (label : ProcessLabel) : Prop :=
  (∀ id node, label = .executor id (.addNode (some node)) → ∀ group, some group ∈ node.groups →
    owner group.ptr = node.ptr) ∧
  ∀ id call more expired, label = .executor id (.waitForWork call more expired) → ∀ pair ∈ more,
    owner pair.1.ptr = pair.2

namespace LiveExecutor

/-- The executor has the group: pending, in the map it waits for, or handed to the
non-real-time executor. -/
def HasGroup (x : LiveExecutor) (group : Ptr) : Prop :=
  group ∈ x.pending ∨
    (∃ entry ∈ x.state.weakGroupsToNodes, ∃ group', entry.group = some group' ∧ group'.ptr = group) ∨
    ∃ pair ∈ x.state.nonRtCallbackGroups, pair.1.ptr = group

variable {owner : Ptr → Ptr} {x : LiveExecutor}

/-- The pair is a group and its node, which the executor has. -/
def Own (owner : Ptr → Ptr) (x : LiveExecutor) (group node : Ptr) : Prop :=
  node = owner group ∧ node ∈ x.weakNodes

structure OwnGroups (owner : Ptr → Ptr) (x : LiveExecutor) : Prop where
  pending : ∀ group node, x.pending.lookup group = some node → x.Own owner group node
  state : x.state.Paired (x.Own owner)

theorem OwnGroups.owner_mem (own : x.OwnGroups owner) {group : Ptr} (has : x.HasGroup group) :
    owner group ∈ x.weakNodes := by
  rcases has with pending | ⟨entry, member, group', isGroup, rfl⟩ | ⟨pair, member, rfl⟩
  · obtain ⟨node, found⟩ := UnorderedMap.mem_iff_lookup.1 pending
    obtain ⟨rfl, has⟩ := own.pending group node found
    exact has
  · obtain ⟨node, -, rfl, has⟩ := own.state.waited entry member group' isGroup
    exact has
  · obtain ⟨same, has⟩ := own.state.nonRt pair member
    exact same ▸ has

theorem OwnGroups.classify (own : x.OwnGroups owner) (locks : Locks) (base : BaseExecutor) :
    (∀ e', { x.state with pendingWeakGroupsToNodes := locks.view x.pending }.classifyCallbackGroups base = .ok e' →
        e'.Paired (x.Own owner)) ∧
      ∀ failed, { x.state with pendingWeakGroupsToNodes := locks.view x.pending }.classifyCallbackGroups base =
        .error failed → failed.executor.Paired (x.Own owner) :=
  ExecutorState.classifyCallbackGroups_paired
    (fun group node member => own.pending group.ptr node (Locks.mem_view member))
    ⟨own.state.waited, own.state.nonRt⟩

theorem OwnGroups.acts {p p' : Process} {id : Nat} {action : ExecutorAction} (own : x.OwnGroups owner)
    (respects : (ProcessLabel.executor id action).Respects owner) (acts : Process.Acts p id x action p')
    {x' : LiveExecutor} (found : p'.executors id = some x') : x'.OwnGroups owner := by
  cases acts with
  | @added node free =>
      cases Process.setExecutor_self found
      have more : ∀ group n, x.Own owner group n →
          n = owner group ∧ n ∈ x.weakNodes ++ [node.ptr] := fun group n ⟨same, member⟩ =>
        ⟨same, List.mem_append_left _ member⟩
      refine ⟨fun group n inMap => ?_, own.state.mono more⟩
      rcases lookup_addGroup inMap with before | ⟨rfl, g, member, rfl⟩
      · exact more group n (own.pending group n before)
      · exact ⟨(respects.1 id node rfl g member).symm, List.mem_append_right _ (List.mem_singleton.2 rfl)⟩
  | loaded at_ returned =>
      cases Process.setExecutor_self found
      exact ⟨own.pending, own.state.waited, own.state.nonRt⟩
  | classifyThrew at_ threw =>
      cases Process.setExecutor_self found
      exact ⟨own.pending, (own.classify _ _).2 _ threw⟩
  | classified at_ returned =>
      cases Process.setExecutor_self found
      exact ⟨nofun, (own.classify _ _).1 _ returned⟩
  | spawnThrew at_ threw =>
      cases Process.setExecutor_self found
      have groups := ExecutorState.spawnWorkerGroups_threw_groups threw
      refine ⟨own.pending, ?_, ?_⟩
      · rw [groups.1]; exact own.state.waited
      · rw [groups.2]; exact own.state.nonRt
  | spawned at_ returned =>
      cases Process.setExecutor_self found
      obtain ⟨-, threadGroups, -, rfl⟩ := ExecutorState.spawnWorkerGroups_returned returned
      exact ⟨own.pending, own.state.waited, own.state.nonRt⟩
  | waited at_ ofNodes =>
      cases Process.setExecutor_self found
      refine ⟨own.pending, fun entry member group isGroup => ?_, own.state.nonRt⟩
      rcases mem_waitForWork member with old | ⟨pair, inMore, rfl⟩
      · exact own.state.waited entry old group isGroup
      · cases isGroup
        exact ⟨pair.2, rfl, (respects.2 id _ _ _ rfl pair inMore).symm, ofNodes pair inMore⟩
  | destroyed outside => simp only [Function.update_self, reduceCtorEq] at found
  | _ =>
      cases Process.setExecutor_self found
      exact ⟨own.pending, own.state⟩

end LiveExecutor

/-- **No callback group in two executors.**  In every state of every history in which a
group is handed out for one node only: each group that an executor has, pending, waited for
or non-real-time, is paired with its node, which is one that this executor has; so no two
executors have one group. -/
theorem Process.groups_exclusive {owner : Ptr → Ptr} {p : Process}
    (reachable : Process.system.ReachableWhile (fun _ label => label.Respects owner) p) :
    (∀ id x, p.executors id = some x →
      (∀ group node, x.pending.lookup group = some node → x.Own owner group node) ∧
        x.state.Paired (x.Own owner) ∧ ∀ group, x.HasGroup group → owner group ∈ x.weakNodes) ∧
      ∀ id id' x x' group, p.executors id = some x → p.executors id' = some x' →
        x.HasGroup group → x'.HasGroup group → id' = id := by
  have own : ∀ id x, p.executors id = some x → x.OwnGroups owner := fun id x at_ =>
    executors_invariant (fun _ _ x => x.OwnGroups owner)
      (fun _ _ _ => ⟨by rintro _ _ ⟨⟩, by rintro _ ⟨⟩, by rintro _ ⟨⟩⟩) (fun _ _ _ _ own => own)
      (fun _ _ _ _ _ _ _ respects own acts _ found => own.acts respects acts found) reachable id x at_
  refine ⟨fun id x at_ => ⟨(own id x at_).pending, (own id x at_).state, fun group => (own id x at_).owner_mem⟩,
    fun id id' x x' group at_ at' has has' => ?_⟩
  have sole := (custody_reachable reachable).2.sole (some id) (some id') (owner group)
    ⟨x, at_, (own id x at_).owner_mem has⟩ ⟨x', at', (own id' x' at').owner_mem has'⟩
  exact Option.some.inj sole

/-- The first executor waits for group 1, for group 5 that its loop has found, and has groups of a
second node pending; the executor that was refused the node has none of them. -/
def sampleGrouping : List ProcessLabel :=
  sampleExecutor 0 100 ++ sampleSpin 0 0 ++
    [.executor 0 (.waitForWork 0 [({ sampleGroup with ptr := 5 }, 100)] fun _ => false),
      .executor 0 (.addNode (some ⟨300, "/leg", [some ⟨7, false, true⟩]⟩))] ++
    sampleExecutor 1 100

theorem Process.groups_exclusive_waiting :
    ∃ p x, Process.system.run .start sampleGrouping = some p ∧ p.executors 0 = some x ∧
      (∀ group ∈ [1, 5, 7], x.HasGroup group) ∧ x.Own (fun ptr => if ptr = 7 then 300 else 100) 7 300 ∧
      ∀ x', p.executors 1 = some x' → ∀ group ∈ [1, 5, 7], ¬ x'.HasGroup group := by
  have values : ((Process.system.run .start sampleGrouping).bind fun p => (p.executors 0).map fun x =>
      (x.state.weakGroupsToNodes, x.pending.lookup 7)) =
      some ([⟨some sampleGroup, some 100⟩, ⟨some { sampleGroup with ptr := 5 }, some 100⟩], some 300) := by decide
  obtain ⟨p, ran, values⟩ := Option.bind_eq_some_iff.1 values
  obtain ⟨x, at_, values⟩ := Option.map_eq_some_iff.1 values
  obtain ⟨waited, pending⟩ := Prod.mk.inj values
  have reachable : Process.system.ReachableWhile
      (fun _ label => label.Respects fun ptr => if ptr = 7 then 300 else 100) p := by
    refine Transition.reachableWhile_of_kind (.init rfl) ?_ ran
    simp [sampleGrouping, sampleExecutor, sampleSpin, ProcessLabel.Respects, sampleNode]
    rintro _ _ _ _ - - rfl - group node member
    simp only [List.mem_singleton, Prod.mk.injEq] at member
    obtain ⟨rfl, rfl⟩ := member
    rfl
  have has : ∀ group ∈ [1, 5, 7], x.HasGroup group := by
    simp [LiveExecutor.HasGroup, waited, sampleGroup, UnorderedMap.mem_iff_lookup, pending]
  obtain ⟨own, sole⟩ := groups_exclusive reachable
  refine ⟨p, x, ran, at_, has, (own 0 x at_).1 7 300 pending, fun x' at' group member has' => ?_⟩
  cases sole 0 1 x x' group at_ at' (has group member) has'

end PreemptiveExecutor
