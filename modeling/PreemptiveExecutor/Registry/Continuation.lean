/-
# Registry.Continuation — comparing the threadgroups of two traversals

Where every stored indegree of 1 belongs to a callback with one predecessor, the
order of the search does not matter for the owner a callback joins: the traversal
either goes on into it from that predecessor, or starts it afresh.

So two traversals of the same edges differ in their threadgroups only through the
callbacks that one goes on into and the other starts afresh.  They partition the
callbacks alike exactly if no Reentrant callback is carried into another threadgroup
by that (`samePartition_iff_sameOwners`, `sameOwners_iff_harmless`).
-/
import PreemptiveExecutor.Registry.Handover

namespace PreemptiveExecutor

open Theory
open Relation (ReflTransGen TransGen)

set_option autoImplicit false

namespace AdjacencyList

variable {adjacencyList : AdjacencyList} {forest : Forest}

/-- The traversal goes on from a callback into the next one, with its threadgroup. -/
def ContinuesInto (adjacencyList : AdjacencyList) (before next : String) : Prop :=
  (adjacencyList.outgoing before).head? = some next ∧ adjacencyList.indegree next = 1

/-- An edge into a callback of stored indegree 1. -/
def SingleEdge (adjacencyList : AdjacencyList) (before next : String) : Prop :=
  next ∈ adjacencyList.outgoing before ∧ adjacencyList.indegree next = 1

/-- The callback the traversal starts afresh to get to this one by going on. -/
def ContinuedFrom (adjacencyList : AdjacencyList) (head name : String) : Prop :=
  ReflTransGen adjacencyList.ContinuesInto head name ∧ ∀ before, ¬ adjacencyList.ContinuesInto before head

/-- A stored indegree of 1 belongs to a callback with one predecessor. -/
def OnePredecessor (adjacencyList : AdjacencyList) : Prop :=
  ∀ a b next, adjacencyList.SingleEdge a next → next ∈ adjacencyList.outgoing b → b = a

theorem ContinuesInto.single {before next : String} (goesOn : adjacencyList.ContinuesInto before next) :
    adjacencyList.SingleEdge before next :=
  ⟨List.mem_of_mem_head? goesOn.1, goesOn.2⟩

theorem ContinuedFrom.path {head name : String} (continued : adjacencyList.ContinuedFrom head name) :
    ReflTransGen adjacencyList.SingleEdge head name :=
  continued.1.lift id fun _ _ goesOn => goesOn.single

theorem continues_iff {before : String} :
    adjacencyList.continues before = true ↔ ∃ next, adjacencyList.ContinuesInto before next := by
  constructor
  · intro continuing
    obtain ⟨next, -, isFirst, one⟩ := followed_of_continues continuing
    exact ⟨next, isFirst, one⟩
  · rintro ⟨next, isFirst, one⟩
    obtain ⟨others, edges⟩ := List.head?_eq_some_iff.1 isFirst
    rw [continues_cons edges, one]
    rfl

/-- Of a continuing callback only the one it goes on into is followed. -/
theorem continuesInto_of_followed {before next : String} (continuing : adjacencyList.continues before = true)
    (follows : next ∈ adjacencyList.followed before) : adjacencyList.ContinuesInto before next := by
  obtain ⟨next', only, isFirst, one⟩ := followed_of_continues continuing
  rw [only, List.mem_singleton] at follows
  exact follows ▸ ⟨isFirst, one⟩

/-- **Induction from predecessors** over the callbacks of a forest: through single
edges a callback is called by its predecessor, which the forest has. -/
theorem Called.induction (called : adjacencyList.Called forest) (one : adjacencyList.OnePredecessor)
    {P : String → Prop} (inherits : ∀ name ∈ forest.names,
      (∀ before, adjacencyList.SingleEdge before name → before ∈ forest.names ∧ P before) → P name) :
    ∀ name ∈ forest.names, P name := by
  have all : ∀ {older : Forest}, adjacencyList.Called older → older.names ⊆ forest.names →
      ∀ name ∈ older.names, P name := by
    intro older called
    induction called with
    | nil => exact fun _ name member => nomatch member
    | @root older root called new isRoot ih =>
        intro subset name member
        obtain ⟨here, later⟩ := List.cons_subset.1 subset
        rcases List.mem_cons.1 member with rfl | old
        · refine inherits _ here fun before edge => ?_
          exact absurd (edge.2.symm.trans (mem_roots_iff.1 isRoot).2) (by decide)
        · exact ih later name old
    | @nested older next caller called new known follows ih =>
        intro subset name member
        obtain ⟨here, later⟩ := List.cons_subset.1 subset
        rcases List.mem_cons.1 member with rfl | old
        · refine inherits _ here fun before edge => ?_
          obtain rfl := one _ _ _ edge (followed_subset_outgoing _ _ follows)
          exact ⟨later known, ih later caller known⟩
        · exact ih later name old
  exact all called (List.Subset.refl _)

/-- Single edges have no cycle that the search comes to. -/
theorem Called.not_cycle (called : adjacencyList.Called forest) (one : adjacencyList.OnePredecessor) :
    ∀ name ∈ forest.names, ¬ TransGen adjacencyList.SingleEdge name name := by
  refine called.induction one fun name _ before cycle => ?_
  obtain ⟨last, path, edge⟩ := TransGen.tail'_iff.1 cycle
  exact (before last edge).2 (TransGen.head' edge path)

end AdjacencyList

namespace CallbackRegistry

section Carried

variable {r : CallbackRegistry} {forest : Forest}

/-- Where the traversal goes on into a callback, it goes on in the same threadgroup. -/
theorem carries_continued (called : r.adjacencyList.Called forest) (one : r.adjacencyList.OnePredecessor)
    {before name : String} (goesOn : r.adjacencyList.ContinuesInto before name) (visited : name ∈ forest.names) :
    before ∈ forest.names ∧ r.carries forest name = r.carries forest before := by
  induction called with
  | nil => cases visited
  | @root older root called new isRoot ih =>
      rcases List.mem_cons.1 visited with rfl | old
      · exact absurd (goesOn.2.symm.trans (AdjacencyList.mem_roots_iff.1 isRoot).2) (by decide)
      · obtain ⟨known, same⟩ := ih old
        rw [carries_other (by rintro rfl; exact new old), carries_other (by rintro rfl; exact new known)]
        exact ⟨List.mem_cons_of_mem _ known, same⟩
  | @nested older next caller called new known follows ih =>
      rcases List.mem_cons.1 visited with rfl | old
      · obtain rfl := one _ _ _ goesOn.single (AdjacencyList.followed_subset_outgoing _ _ follows)
        have here : r.carries (⟨name, some caller⟩ :: older) name = r.carries older caller :=
          carries_inherited older rfl (AdjacencyList.continues_iff.2 ⟨_, goesOn⟩)
        have there : r.carries (⟨name, some caller⟩ :: older) caller = r.carries older caller :=
          carries_other (by rintro rfl; exact new known)
        exact ⟨List.mem_cons_of_mem _ known, here.trans there.symm⟩
      · obtain ⟨known', same⟩ := ih old
        rw [carries_other (by rintro rfl; exact new old), carries_other (by rintro rfl; exact new known')]
        exact ⟨List.mem_cons_of_mem _ known', same⟩

/-- Where it goes on into a callback from nowhere, it starts it afresh. -/
theorem carries_afresh (called : r.adjacencyList.Called forest) {name : String} (visited : name ∈ forest.names)
    (afresh : ∀ before, ¬ r.adjacencyList.ContinuesInto before name) :
    r.carries forest name = r.owner name := by
  induction called with
  | nil => cases visited
  | @root older root called new isRoot ih =>
      rcases List.mem_cons.1 visited with rfl | old
      · show r.carries (⟨name, none⟩ :: older) name = r.owner name
        exact carries_entered rfl
      · rw [carries_other (by rintro rfl; exact new old), ih old]
  | @nested older next caller called new known follows ih =>
      rcases List.mem_cons.1 visited with rfl | old
      · show r.carries (⟨name, some caller⟩ :: older) name = r.owner name
        apply carries_entered
        show (!r.adjacencyList.continues caller) = true
        rw [Bool.not_eq_true']
        by_contra continuing
        exact afresh caller (AdjacencyList.continuesInto_of_followed (by simpa using continuing) follows)
      · rw [carries_other (by rintro rfl; exact new old), ih old]

/-- A callback is carried on in the threadgroup of the one it is continued from. -/
theorem carries_continuedFrom (called : r.adjacencyList.Called forest) (one : r.adjacencyList.OnePredecessor)
    {head name : String} (continued : r.adjacencyList.ContinuedFrom head name) (visited : name ∈ forest.names) :
    head ∈ forest.names ∧ r.carries forest name = r.owner head := by
  obtain ⟨path, afresh⟩ := continued
  induction path with
  | refl => exact ⟨visited, carries_afresh called visited afresh⟩
  | tail _ goesOn ih =>
      obtain ⟨known, same⟩ := carries_continued called one goesOn visited
      exact ⟨(ih known).1, same.trans (ih known).2⟩

/-- Every callback is continued from one that was started afresh. -/
theorem exists_head (called : r.adjacencyList.Called forest) (one : r.adjacencyList.OnePredecessor) :
    ∀ name ∈ forest.names, ∃ head, r.adjacencyList.ContinuedFrom head name := by
  refine called.induction one fun name _ before => ?_
  by_cases goesOn : ∃ before, r.adjacencyList.ContinuesInto before name
  · obtain ⟨last, goesOn⟩ := goesOn
    obtain ⟨-, head, path, afresh⟩ := before last goesOn.single
    exact ⟨head, path.tail goesOn, afresh⟩
  · exact ⟨name, .refl, fun before h => goesOn ⟨before, h⟩⟩

/-- A callback carried on in the segment of a head is come to from there. -/
theorem path_of_carries (called : r.adjacencyList.Called forest) (one : r.adjacencyList.OnePredecessor)
    {head name : String} (reentrant : (r.owner head).isMutex = false) (visited : name ∈ forest.names)
    (carried : r.carries forest name = r.owner head) :
    ReflTransGen r.adjacencyList.SingleEdge head name := by
  obtain ⟨head', continued⟩ := exists_head called one name visited
  have carried' := (carries_continuedFrom called one continued visited).2
  have same : r.owner head' = .segment head :=
    carried'.symm.trans (carried.trans (segment_of_reentrant reentrant))
  exact owner_segment same ▸ continued.path

/-- A callback whose own threadgroup the traversal goes on in joins it. -/
theorem joins_of_carries {name : String} (own : r.carries forest name = r.owner name) :
    r.joins forest name = r.owner name := by
  unfold joins
  split
  · rfl
  · exact own

end Carried

/-! ## Two traversals of the same edges -/

/-- The depth-first forests of two traversals that come to the same callbacks, over
the same edges and with the same callback groups. -/
structure Compared (r r' : CallbackRegistry) (forest forest' : Forest) : Prop where
  owner : ∀ name, r'.owner name = r.owner name
  called : r.adjacencyList.Called forest
  called' : r'.adjacencyList.Called forest'
  one : r.adjacencyList.OnePredecessor
  one' : r'.adjacencyList.OnePredecessor
  outgoing : ∀ before name, name ∈ r'.adjacencyList.outgoing before ↔ name ∈ r.adjacencyList.outgoing before
  indegree : ∀ name, r'.adjacencyList.indegree name = 1 → r.adjacencyList.indegree name = 1
  names : ∀ name, name ∈ forest'.names ↔ name ∈ forest.names

/-- Two callbacks join one threadgroup in the first traversal exactly if they do in
the second. -/
def SamePartition (r r' : CallbackRegistry) (forest forest' : Forest) : Prop :=
  ∀ a ∈ forest.names, ∀ b ∈ forest.names,
    r.joins forest a = r.joins forest b ↔ r'.joins forest' a = r'.joins forest' b

def SameOwners (r r' : CallbackRegistry) (forest forest' : Forest) : Prop :=
  ∀ name ∈ forest.names, r'.joins forest' name = r.joins forest name

/-- Both traversals go on from the callback into the next one. -/
def BothContinue (r r' : CallbackRegistry) (before next : String) : Prop :=
  r.adjacencyList.ContinuesInto before next ∧ r'.adjacencyList.ContinuesInto before next

/-- Where the first traversal goes on into a callback that the second starts afresh,
and both go on from there to a Reentrant callback, the first goes on in the
threadgroup the second enters. -/
def Harmless (r r' : CallbackRegistry) (visited : String → Prop) : Prop :=
  ∀ before restarted name head, visited before → r.adjacencyList.ContinuesInto before restarted →
    ¬ r'.adjacencyList.ContinuesInto before restarted → ReflTransGen (r.BothContinue r') restarted name →
    visited name → (r.owner name).isMutex = false → r.adjacencyList.ContinuedFrom head before →
    r.owner restarted = r.owner head

namespace Compared

variable {r r' : CallbackRegistry} {forest forest' : Forest}

theorem single' (compared : Compared r r' forest forest') {before name : String}
    (edge : r'.adjacencyList.SingleEdge before name) : r.adjacencyList.SingleEdge before name :=
  ⟨(compared.outgoing before name).1 edge.1, compared.indegree name edge.2⟩

/-- What one traversal goes on into from a callback, the other does not go on into
from another one. -/
theorem afresh' (compared : Compared r r' forest forest') {before name : String}
    (goesOn : r.adjacencyList.ContinuesInto before name)
    (restarts : ¬ r'.adjacencyList.ContinuesInto before name) (other : String) :
    ¬ r'.adjacencyList.ContinuesInto other name := by
  intro goesOn'
  obtain rfl := compared.one _ _ _ goesOn.single (compared.single' goesOn'.single).1
  exact restarts goesOn'

theorem afresh (compared : Compared r r' forest forest') {before name : String}
    (goesOn : r'.adjacencyList.ContinuesInto before name)
    (restarts : ¬ r.adjacencyList.ContinuesInto before name) (other : String) :
    ¬ r.adjacencyList.ContinuesInto other name := by
  intro goesOn'
  obtain rfl := compared.one _ _ _ goesOn'.single (compared.single' goesOn.single).1
  exact restarts goesOn'

theorem joins_mutex (compared : Compared r r' forest forest') {name : String}
    (mutex : (r.owner name).isMutex = true) :
    r.joins forest name = r.owner name ∧ r'.joins forest' name = r.owner name := by
  have mutex' : (r'.owner name).isMutex = true := (congrArg Owner.isMutex (compared.owner name)).trans mutex
  exact ⟨CallbackRegistry.joins_mutex mutex, (CallbackRegistry.joins_mutex mutex').trans (compared.owner name)⟩

theorem joins_reentrant (compared : Compared r r' forest forest') {name : String}
    (reentrant : (r.owner name).isMutex = false) :
    r.joins forest name = r.carries forest name ∧ r'.joins forest' name = r'.carries forest' name := by
  have reentrant' : (r'.owner name).isMutex = false :=
    (congrArg Owner.isMutex (compared.owner name)).trans reentrant
  exact ⟨CallbackRegistry.joins_reentrant reentrant, CallbackRegistry.joins_reentrant reentrant'⟩

/-- **The same partition is one into the same owners.** -/
theorem samePartition_iff_sameOwners (compared : Compared r r' forest forest') :
    SamePartition r r' forest forest' ↔ SameOwners r r' forest forest' := by
  constructor
  · intro same name visited
    cases kind : (r.owner name).isMutex with
    | true =>
        obtain ⟨here, there⟩ := compared.joins_mutex kind
        rw [here, there]
    | false =>
        obtain ⟨here, there⟩ := compared.joins_reentrant kind
        -- in both traversals the callback shares its threadgroup with the head of it
        have visited' := (compared.names name).2 visited
        obtain ⟨head, continued⟩ := exists_head compared.called compared.one name visited
        obtain ⟨known, carried⟩ := carries_continuedFrom compared.called compared.one continued visited
        have own := carries_afresh compared.called known continued.2
        obtain ⟨head', continued'⟩ := exists_head compared.called' compared.one' name visited'
        obtain ⟨known', carried'⟩ := carries_continuedFrom compared.called' compared.one' continued' visited'
        have own' := carries_afresh compared.called' known' continued'.2
        have shares : r.joins forest head = r.joins forest name := by
          rw [here, carried, joins_of_carries own]
        have shares' : r'.joins forest' head' = r'.joins forest' name := by
          rw [there, carried', joins_of_carries own']
        have across := (same head known name visited).1 shares
        have across' := (same head' ((compared.names head').1 known') name visited).2 shares'
        rw [joins_of_carries own'] at shares'
        rw [joins_of_carries own] at shares
        rw [← shares, ← shares', compared.owner head']
        cases kindHead : (r.owner head).isMutex with
        | true =>
            rw [(compared.joins_mutex kindHead).2, ← shares', compared.owner head'] at across
            exact across.symm
        | false =>
            cases kindHead' : (r.owner head').isMutex with
            | true =>
                rw [(compared.joins_mutex kindHead').1, ← shares] at across'
                exact across'
            | false =>
                -- each head is carried on to from the other one, so they are the same
                rw [(compared.joins_reentrant kindHead').1, ← shares] at across'
                rw [(compared.joins_reentrant kindHead).2, ← shares'] at across
                have there := path_of_carries compared.called compared.one kindHead
                  ((compared.names head').1 known') across'
                have back := path_of_carries compared.called' compared.one' (compared.owner head' ▸ kindHead')
                  ((compared.names head).2 known) across
                have back := back.lift id fun _ _ edge => compared.single' edge
                rcases Relation.reflTransGen_iff_eq_or_transGen.1 there with same | cycle
                · rw [same]
                · exact absurd (cycle.trans_left back) (compared.called.not_cycle compared.one head known)
  · intro same a visited b visited'
    rw [same a visited, same b visited']

/-- One traversal goes on into a callback and the other starts it afresh; from there
both go on to `name`. -/
def Parted (r r' : CallbackRegistry) (forest : Forest) (name : String) (o o' : Owner) : Prop :=
  ∃ before restarted, before ∈ forest.names ∧ r.adjacencyList.ContinuesInto before restarted ∧
    ¬ r'.adjacencyList.ContinuesInto before restarted ∧ ReflTransGen (r.BothContinue r') restarted name ∧
    o = r.carries forest before ∧ o' = r.owner restarted

theorem Parted.step {before name : String} {o o' : Owner} (parted : Parted r r' forest before o o')
    (both : r.BothContinue r' before name) : Parted r r' forest name o o' := by
  obtain ⟨a, n, known, goesOn, restarts, path, carried, own⟩ := parted
  exact ⟨a, n, known, goesOn, restarts, path.tail both, carried, own⟩

/-- Two owners a callback is carried in differ only by a restart on the way to it. -/
theorem carries_or_parted (compared : Compared r r' forest forest') : ∀ name ∈ forest.names,
    r'.carries forest' name = r.carries forest name ∨
      Parted r r' forest name (r.carries forest name) (r'.carries forest' name) ∨
      Parted r' r forest' name (r'.carries forest' name) (r.carries forest name) := by
  refine compared.called.induction compared.one fun name visited before => ?_
  have visited' := (compared.names name).2 visited
  by_cases goesOn : ∃ last, r.adjacencyList.ContinuesInto last name
  · obtain ⟨last, goesOn⟩ := goesOn
    obtain ⟨known, same⟩ := carries_continued compared.called compared.one goesOn visited
    by_cases goesOn' : r'.adjacencyList.ContinuesInto last name
    · obtain ⟨-, same'⟩ := carries_continued compared.called' compared.one' goesOn' visited'
      rw [same, same']
      refine (before last goesOn.single).2.imp_right (Or.imp ?_ ?_)
      · exact fun parted => parted.step ⟨goesOn, goesOn'⟩
      · exact fun parted => parted.step ⟨goesOn', goesOn⟩
    · have own := carries_afresh compared.called' visited' (compared.afresh' goesOn goesOn')
      exact Or.inr (Or.inl ⟨last, name, known, goesOn, goesOn', .refl, same, own.trans (compared.owner name)⟩)
  · have own := carries_afresh compared.called visited fun last h => goesOn ⟨last, h⟩
    by_cases goesOn' : ∃ last, r'.adjacencyList.ContinuesInto last name
    · obtain ⟨last, goesOn'⟩ := goesOn'
      obtain ⟨known, same'⟩ := carries_continued compared.called' compared.one' goesOn' visited'
      exact Or.inr (Or.inr ⟨last, name, known, goesOn', fun h => goesOn ⟨last, h⟩, .refl, same',
        own.trans (compared.owner name).symm⟩)
    · left
      rw [own, carries_afresh compared.called' visited' fun last h => goesOn' ⟨last, h⟩, compared.owner]

/-- What both go on to from a callback is carried in the same threadgroup as it. -/
theorem carries_path {name start : String} (compared : Compared r r' forest forest')
    (path : ReflTransGen (r.BothContinue r') start name) (visited : name ∈ forest.names) :
    start ∈ forest.names ∧ r.carries forest name = r.carries forest start ∧
      r'.carries forest' name = r'.carries forest' start := by
  induction path with
  | refl => exact ⟨visited, rfl, rfl⟩
  | tail path both ih =>
      obtain ⟨known, same⟩ := carries_continued compared.called compared.one both.1 visited
      obtain ⟨-, same'⟩ := carries_continued compared.called' compared.one' both.2
        ((compared.names _).2 visited)
      obtain ⟨start, carried, carried'⟩ := ih known
      exact ⟨start, same.trans carried, same'.trans carried'⟩

/-- **Owners are the same exactly if all restarts are harmless**, in both directions. -/
theorem sameOwners_iff_harmless (compared : Compared r r' forest forest') :
    SameOwners r r' forest forest' ↔ r.Harmless r' (· ∈ forest.names) ∧ r'.Harmless r (· ∈ forest'.names) := by
  constructor
  · intro same
    constructor
    · intro before restarted name head known goesOn restarts path visited reentrant continued
      obtain ⟨start, carried, carried'⟩ := compared.carries_path path visited
      have joined := same name visited
      obtain ⟨here, there⟩ := compared.joins_reentrant reentrant
      rw [here, there, carried, carried', (carries_continued compared.called compared.one goesOn start).2,
        carries_afresh compared.called' ((compared.names _).2 start) (compared.afresh' goesOn restarts),
        compared.owner] at joined
      exact joined.trans (carries_continuedFrom compared.called compared.one continued known).2
    · intro before restarted name head known goesOn restarts path visited reentrant continued
      have visited := (compared.names name).1 visited
      have path' : ReflTransGen (r.BothContinue r') restarted name :=
        path.lift id fun _ _ both => ⟨both.2, both.1⟩
      obtain ⟨start, carried, carried'⟩ := compared.carries_path path' visited
      have joined := same name visited
      rw [compared.owner] at reentrant
      obtain ⟨here, there⟩ := compared.joins_reentrant reentrant
      rw [here, there, carried, carried',
        (carries_continued compared.called' compared.one' goesOn ((compared.names _).2 start)).2,
        carries_afresh compared.called start (compared.afresh goesOn restarts)] at joined
      have carried := (carries_continuedFrom compared.called' compared.one' continued known).2
      exact (compared.owner restarted).trans (joined.symm.trans carried)
  · rintro ⟨harmless, harmless'⟩ name visited
    cases kind : (r.owner name).isMutex with
    | true =>
        obtain ⟨here, there⟩ := compared.joins_mutex kind
        rw [here, there]
    | false =>
        obtain ⟨here, there⟩ := compared.joins_reentrant kind
        rw [here, there]
        rcases compared.carries_or_parted name visited with same |
          ⟨before, restarted, known, goesOn, restarts, path, carried, own⟩ |
          ⟨before, restarted, known, goesOn, restarts, path, carried, own⟩
        · exact same
        · obtain ⟨head, continued⟩ := exists_head compared.called compared.one before known
          rw [carried, own, (carries_continuedFrom compared.called compared.one continued known).2]
          exact harmless before restarted name head known goesOn restarts path visited kind continued
        · obtain ⟨head, continued⟩ := exists_head compared.called' compared.one' before known
          rw [carried, own, (carries_continuedFrom compared.called' compared.one' continued known).2]
          exact (harmless' before restarted name head known goesOn restarts path
            ((compared.names name).2 visited) (compared.owner name ▸ kind) continued).symm

end Compared

end CallbackRegistry

end PreemptiveExecutor
