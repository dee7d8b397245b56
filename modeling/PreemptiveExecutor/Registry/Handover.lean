/-
# Registry.Handover — owners and hand-overs on the callback graph

The abstract side of the traversal, without threadgroup ids.  A depth-first search
of the followed edges gives a `Forest`: every callback it comes to, with the
callback that called it first.  From the forest and the callback groups alone it
is determined

* who owns a threadgroup (`Owner`): a MutuallyExclusive callback group, or the
  Reentrant callback a threadgroup was opened for,
* in whose threadgroup the traversal goes on from a callback (`carries`),
* which threadgroup a callback joins (`joins`),
* which owner hands over to which (`handovers`).

`Registry.Refinement` proves that the threadgroups and threadgroup edges of the
traversal are these owners and hand-overs under other names.
-/
import Mathlib.Logic.Relation
import PreemptiveExecutor.Registry.Traversal

namespace PreemptiveExecutor

open Theory
open Theory.DepthFirst (dfsAll)

set_option autoImplicit false

/-- What a threadgroup was opened for. -/
inductive Owner where
  | mutexGroup (group : Ptr)
  | segment (head : String)
  deriving DecidableEq, Repr

def Owner.isMutex : Owner → Bool
  | .mutexGroup _ => true
  | .segment _ => false

/-- The first call of the traversal on a callback: by the root loop, or by the
traversal of another callback. -/
structure FirstCall where
  callbackName : String
  caller : Option String
  deriving DecidableEq, Repr

/-- The first calls, the latest one first. -/
abbrev Forest := List FirstCall

def Forest.names (forest : Forest) : List String := forest.map FirstCall.callbackName

/-- One activation of the search. -/
def visitForest (adjacencyList : AdjacencyList) (forest : Forest) (call : FirstCall) :
    Except Unit (Forest × List FirstCall) :=
  if call.callbackName ∈ forest.names then .ok (forest, [])
  else .ok (call :: forest,
    (adjacencyList.followed call.callbackName).map (⟨·, some call.callbackName⟩))

/-- The depth-first forest of a callback graph, in its iteration order. -/
def AdjacencyList.DepthFirstForest (adjacencyList : AdjacencyList) (forest : Forest) : Prop :=
  ∃ stack, dfsAll (visitForest adjacencyList) (fun _ => ()) stack (adjacencyList.roots.map (⟨·, none⟩)) [] =
    .ok forest

/-- A graph has one depth-first forest. -/
theorem AdjacencyList.DepthFirstForest.unique {adjacencyList : AdjacencyList} {forest forest' : Forest}
    (is : adjacencyList.DepthFirstForest forest) (is' : adjacencyList.DepthFirstForest forest') :
    forest = forest' := by
  obtain ⟨stack, ran⟩ := is
  obtain ⟨stack', ran'⟩ := is'
  have deeper := DepthFirst.dfsAll_mono stack (max stack stack') _ _ _ (Nat.le_max_left _ _) ran
  have deeper' := DepthFirst.dfsAll_mono stack' (max stack stack') _ _ _ (Nat.le_max_right _ _) ran'
  exact Except.ok.inj (deeper.symm.trans deeper')

/-- A statement about the depth-first forest is one about any. -/
theorem AdjacencyList.DepthFirstForest.forall_iff {adjacencyList : AdjacencyList} {forest : Forest}
    (isForest : adjacencyList.DepthFirstForest forest) {P : Forest → Prop} :
    (∀ forest, adjacencyList.DepthFirstForest forest → P forest) ↔ P forest :=
  ⟨fun all => all forest isForest, fun holds _ isForest' => isForest'.unique isForest ▸ holds⟩

/-- The search of the depth-first forest, as far as the stack lasts. -/
def AdjacencyList.searchForest (adjacencyList : AdjacencyList) (stack : Nat) : Except Unit Forest :=
  dfsAll (visitForest adjacencyList) (fun _ => ()) stack (adjacencyList.roots.map (⟨·, none⟩)) []

/-- What is true of the forest that a search finds. -/
theorem AdjacencyList.DepthFirstForest.of_search {adjacencyList : AdjacencyList} {forest : Forest}
    (isForest : adjacencyList.DepthFirstForest forest) {stack : Nat} {p : Forest → Bool}
    (found : (adjacencyList.searchForest stack).toOption.any p = true) : p forest = true := by
  cases ran : adjacencyList.searchForest stack with
  | error e => rw [ran] at found; cases found
  | ok forest' =>
      rw [ran] at found
      rw [isForest.unique ⟨stack, ran⟩]
      exact found

/-- A forest of calls that are made: by the root loop, or by an older callback that
follows the called one. -/
inductive AdjacencyList.Called (adjacencyList : AdjacencyList) : Forest → Prop
  | nil : Called adjacencyList []
  | root {older : Forest} {name : String} (called : Called adjacencyList older) (new : name ∉ older.names)
      (isRoot : name ∈ adjacencyList.roots) : Called adjacencyList (⟨name, none⟩ :: older)
  | nested {older : Forest} {name before : String} (called : Called adjacencyList older)
      (new : name ∉ older.names) (known : before ∈ older.names)
      (follows : name ∈ adjacencyList.followed before) : Called adjacencyList (⟨name, some before⟩ :: older)

/-- **The depth-first forest is one of calls that are made.** -/
theorem AdjacencyList.DepthFirstForest.called {adjacencyList : AdjacencyList} {forest : Forest}
    (isForest : adjacencyList.DepthFirstForest forest) : adjacencyList.Called forest := by
  obtain ⟨stack, ran⟩ := isForest
  have kept := DepthFirst.dfsAll_ok
    (fun (forest : Forest) calls => adjacencyList.Called forest ∧ ∀ call ∈ calls,
      (call.caller = none → call.callbackName ∈ adjacencyList.roots) ∧
        ∀ before, call.caller = some before →
          before ∈ forest.names ∧ call.callbackName ∈ adjacencyList.followed before)
    (fun forest ⟨name, caller⟩ rest forest' calls ⟨called, pending⟩ visited => by
      obtain ⟨here, later⟩ := List.forall_mem_cons.1 pending
      unfold visitForest at visited
      split at visited
      · cases visited
        exact ⟨called, later⟩
      · rename_i new
        cases visited
        refine ⟨?_, fun call member => ?_⟩
        · cases caller with
          | none => exact .root called new (here.1 rfl)
          | some before => exact .nested called new (here.2 before rfl).1 (here.2 before rfl).2
        · rcases List.mem_append.1 member with nested | pending
          · obtain ⟨next, follows, rfl⟩ := List.mem_map.1 nested
            refine ⟨nofun, fun before caller => ?_⟩
            cases caller
            exact ⟨List.mem_cons_self, follows⟩
          · exact ⟨(later call pending).1, fun before caller =>
              ⟨List.mem_cons_of_mem _ ((later call pending).2 before caller).1,
                ((later call pending).2 before caller).2⟩⟩)
    stack _ [] [] forest ⟨.nil, fun call member => by
      rw [List.append_nil] at member
      obtain ⟨root, isRoot, rfl⟩ := List.mem_map.1 member
      exact ⟨fun _ => isRoot, nofun⟩⟩ ran
  exact kept.1

/-- A callback calls the successors it follows, and no others. -/
theorem AdjacencyList.Called.follows {adjacencyList : AdjacencyList} {forest : Forest}
    (called : adjacencyList.Called forest) : ∀ call ∈ forest, ∀ before, call.caller = some before →
      call.callbackName ∈ adjacencyList.followed before := by
  induction called with
  | nil => exact fun call member => nomatch member
  | root called new isRoot ih =>
      exact List.forall_mem_cons.2 ⟨nofun, ih⟩
  | nested called new known follows ih =>
      refine List.forall_mem_cons.2 ⟨fun before caller => ?_, ih⟩
      cases caller
      exact follows

/-- The latest call is of a new callback, from an older one if from any. -/
theorem AdjacencyList.Called.latest {adjacencyList : AdjacencyList} {call : FirstCall} {older : Forest}
    (called : adjacencyList.Called (call :: older)) :
    adjacencyList.Called older ∧ call.callbackName ∉ older.names ∧
      ∀ before, call.caller = some before → before ∈ older.names := by
  cases called with
  | root called new isRoot => exact ⟨called, new, by rintro _ ⟨⟩⟩
  | nested called new known follows => exact ⟨called, new, by rintro _ ⟨⟩; exact known⟩

/-- Who calls a callback is in the forest. -/
theorem AdjacencyList.Called.callers {adjacencyList : AdjacencyList} : ∀ {forest : Forest},
    adjacencyList.Called forest → ∀ call ∈ forest, ∀ before, call.caller = some before →
      before ∈ forest.names
  | latest :: older, called, call, member, before, caller => by
      obtain ⟨called, -, known⟩ := called.latest
      rcases List.mem_cons.1 member with rfl | old
      · exact List.mem_cons_of_mem _ (known before caller)
      · exact List.mem_cons_of_mem _ (called.callers call old before caller)

def CallbackInfo.owner (info : CallbackInfo) (callbackName : String) : Owner :=
  if info.isMutex then .mutexGroup info.callbackGroup.ptr else .segment callbackName

namespace CallbackRegistry

variable (r : CallbackRegistry)

/-- The owner of the threadgroup a callback opens, or enters if its group has one. -/
def owner (callbackName : String) : Owner :=
  match r.callbackMap.lookup callbackName with
  | some info => info.owner callbackName
  | none => .segment callbackName

/-- A callback called from the root loop, or from one that does not go on in its
own threadgroup, comes without a threadgroup. -/
def entered : Option String → Bool
  | none => true
  | some before => !r.adjacencyList.continues before

/-- The owner of the threadgroup in which the traversal goes on from a callback. -/
def carries : Forest → String → Owner
  | [], callbackName => .segment callbackName
  | call :: older, callbackName =>
      if call.callbackName = callbackName then
        match call.caller with
        | none => r.owner callbackName
        | some before =>
            if r.adjacencyList.continues before then carries older before else r.owner callbackName
      else carries older callbackName

/-- The owner of the threadgroup a callback is assigned. -/
def joins (forest : Forest) (callbackName : String) : Owner :=
  if (r.owner callbackName).isMutex then r.owner callbackName else r.carries forest callbackName

/-- The pairs of owners of which the first hands over to the second. -/
def handovers : Forest → List (Owner × Owner)
  | [] => []
  | ⟨_, none⟩ :: older => handovers older
  | ⟨callbackName, some before⟩ :: older =>
      if r.adjacencyList.continues before then handovers older
      else (handovers older).insert (r.carries older before, r.owner callbackName)

abbrev HandsOver (forest : Forest) (o o' : Owner) : Prop := (o, o') ∈ r.handovers forest

/-- The callback comes to the threadgroup of its own owner. -/
def opens (call : FirstCall) : Bool := (r.owner call.callbackName).isMutex || r.entered call.caller

/-- The owner has a threadgroup. -/
def Opened (forest : Forest) (o : Owner) : Prop :=
  ∃ call ∈ forest, r.opens call = true ∧ r.owner call.callbackName = o

/-- The callback that came first to the threadgroup of an owner. -/
def firstCallback (forest : Forest) (o : Owner) : Option String :=
  (forest.reverse.find? fun call => r.opens call ∧ r.owner call.callbackName = o).map
    FirstCall.callbackName

/-! ## One more first call -/

variable {r} {forest : Forest} {call : FirstCall}

theorem Opened.cons {o : Owner} (opened : r.Opened forest o) : r.Opened (call :: forest) o :=
  let ⟨first, member, opens, own⟩ := opened
  ⟨first, List.mem_cons_of_mem _ member, opens, own⟩

theorem opened_cons {o : Owner} :
    r.Opened (call :: forest) o ↔
      (r.opens call = true ∧ r.owner call.callbackName = o) ∨ r.Opened forest o :=
  List.exists_mem_cons_iff ..

theorem mem_names_cons {name : String} :
    name ∈ Forest.names (call :: forest) ↔ name = call.callbackName ∨ name ∈ forest.names :=
  List.mem_cons

theorem carries_other {name : String} (other : name ≠ call.callbackName) :
    r.carries (call :: forest) name = r.carries forest name := by
  rw [carries, if_neg (Ne.symm other)]

/-- Called without a threadgroup, the traversal goes on in the one it comes to. -/
theorem carries_entered (entered : r.entered call.caller = true) :
    r.carries (call :: forest) call.callbackName = r.owner call.callbackName := by
  rw [carries, if_pos rfl]
  cases caller : call.caller with
  | none => rfl
  | some before =>
      rw [caller] at entered
      have restarting : r.adjacencyList.continues before = false := by simpa [CallbackRegistry.entered] using entered
      simp [restarting]

theorem carries_inherited (forest : Forest) {before : String} (caller : call.caller = some before)
    (continuing : r.adjacencyList.continues before = true) :
    r.carries (call :: forest) call.callbackName = r.carries forest before := by
  rw [carries, if_pos rfl, caller]
  simp [continuing]

theorem handovers_root (caller : call.caller = none) :
    r.handovers (call :: forest) = r.handovers forest := by
  obtain ⟨name, _⟩ := call
  subst caller
  rfl

theorem handovers_inherited (forest : Forest) {before : String} (caller : call.caller = some before)
    (continuing : r.adjacencyList.continues before = true) :
    r.handovers (call :: forest) = r.handovers forest := by
  obtain ⟨name, _⟩ := call
  subst caller
  simp [handovers, continuing]

theorem handovers_restarted {before : String} (caller : call.caller = some before)
    (restarting : r.adjacencyList.continues before = false) :
    r.handovers (call :: forest) =
      (r.handovers forest).insert (r.carries forest before, r.owner call.callbackName) := by
  obtain ⟨name, _⟩ := call
  subst caller
  simp [handovers, restarting]

theorem handovers_nodup : ∀ forest : Forest, (r.handovers forest).Nodup
  | [] => List.nodup_nil
  | ⟨_, none⟩ :: older => handovers_nodup older
  | ⟨_, some before⟩ :: older => by
      have nodup := handovers_nodup older
      rw [handovers]
      split
      · exact nodup
      · exact List.Nodup.insert nodup

theorem handsOver_mono {o o' : Owner} (edge : r.HandsOver forest o o') :
    r.HandsOver (call :: forest) o o' := by
  obtain ⟨name, caller⟩ := call
  cases caller with
  | none => exact edge
  | some before =>
      unfold HandsOver
      rw [handovers]
      split
      · exact edge
      · exact List.mem_insert_of_mem edge

/-- The callbacks own different threadgroups unless they share a mutex group. -/
theorem owner_segment {name head : String} (own : r.owner name = .segment head) : name = head := by
  unfold owner at own
  split at own
  · unfold CallbackInfo.owner at own
    split at own <;> cases own
    rfl
  · cases own
    rfl

theorem segment_of_reentrant {name : String} (reentrant : (r.owner name).isMutex = false) :
    r.owner name = .segment name := by
  cases own : r.owner name with
  | mutexGroup group => rw [own] at reentrant; cases reentrant
  | segment head => rw [owner_segment own]

theorem not_opened_segment {name : String} (new : name ∉ forest.names) :
    ¬ r.Opened forest (.segment name) := by
  rintro ⟨first, member, -, own⟩
  rw [← owner_segment own] at new
  exact new (List.mem_map_of_mem member)

/-- The first to come stays the first. -/
theorem firstCallback_cons {o : Owner} (opened : r.Opened forest o) :
    r.firstCallback (call :: forest) o = r.firstCallback forest o := by
  obtain ⟨first, member, opens, own⟩ := opened
  have found : (forest.reverse.find? fun call => r.opens call ∧ r.owner call.callbackName = o).isSome :=
    List.find?_isSome.2 ⟨first, List.mem_reverse.2 member, by simp [opens, own]⟩
  unfold firstCallback
  rw [List.reverse_cons, List.find?_append, Option.or_of_isSome found]

theorem firstCallback_new {o : Owner} (new : ¬ r.Opened forest o) (opens : r.opens call = true)
    (own : r.owner call.callbackName = o) :
    r.firstCallback (call :: forest) o = some call.callbackName := by
  have none_ : (forest.reverse.find? fun call => r.opens call ∧ r.owner call.callbackName = o) = none := by
    rw [List.find?_eq_none]
    intro first member holds
    have both : r.opens first = true ∧ r.owner first.callbackName = o := by simpa using holds
    exact new ⟨first, List.mem_reverse.1 member, both.1, both.2⟩
  unfold firstCallback
  rw [List.reverse_cons, List.find?_append, none_, Option.none_or, List.find?_cons_of_pos (by simp [opens, own])]
  rfl

theorem firstCallback_some {o : Owner} (opened : r.Opened forest o) :
    ∃ name, r.firstCallback forest o = some name := by
  obtain ⟨first, member, opens, own⟩ := opened
  have found : (forest.reverse.find? fun call => r.opens call ∧ r.owner call.callbackName = o).isSome :=
    List.find?_isSome.2 ⟨first, List.mem_reverse.2 member, by simp [opens, own]⟩
  obtain ⟨first', at_⟩ := Option.isSome_iff_exists.1 found
  exact ⟨first'.callbackName, by rw [firstCallback, at_]; rfl⟩

/-! ## Forests that are grown call by call -/

/-- The owners that the traversal goes on in, or that hand over, have threadgroups,
and a segment is younger than the owner that hands over to it. -/
structure Grown (r : CallbackRegistry) (forest : Forest) : Prop where
  nodup : forest.names.Nodup
  carried : ∀ name ∈ forest.names, r.Opened forest (r.carries forest name)
  handed : ∀ o o', r.HandsOver forest o o' → r.Opened forest o ∧ r.Opened forest o'
  younger : ∃ age : Owner → Nat, (∀ o, r.Opened forest o → age o < forest.length) ∧
    ∀ o head, r.HandsOver forest o (.segment head) → age o < age (.segment head)

theorem grown_nil : r.Grown [] :=
  ⟨List.nodup_nil, fun _ member => (nomatch member), fun _ _ edge => (nomatch edge),
    fun _ => 0, fun _ ⟨_, member, _⟩ => (nomatch member), fun _ _ edge => (nomatch edge)⟩

/-- The owner a visited callback joins has a threadgroup. -/
theorem Grown.joined (grown : r.Grown forest) {name : String} (visited : name ∈ forest.names) :
    r.Opened forest (r.joins forest name) := by
  unfold joins
  split
  · rename_i mutex
    obtain ⟨first, member, rfl⟩ := List.mem_map.1 visited
    exact ⟨first, member, by rw [opens, mutex, Bool.true_or], rfl⟩
  · exact grown.carried name visited

theorem joins_reentrant {name : String} (reentrant : (r.owner name).isMutex = false) :
    r.joins forest name = r.carries forest name := by
  rw [joins, reentrant, if_neg Bool.false_ne_true]

theorem joins_mutex {name : String} (mutex : (r.owner name).isMutex = true) :
    r.joins forest name = r.owner name := by
  rw [joins, if_pos mutex]

theorem joins_other {name : String} (other : name ≠ call.callbackName) :
    r.joins (call :: forest) name = r.joins forest name := by
  unfold joins
  rw [carries_other other]

theorem opens_of_entered (entered : r.entered call.caller = true) : r.opens call = true := by
  rw [opens, entered, Bool.or_true]

/-- A callback that comes to its own owner's threadgroup joins it. -/
theorem joins_of_opens (opens : r.opens call = true) :
    r.joins (call :: forest) call.callbackName = r.owner call.callbackName := by
  unfold joins
  split
  · rfl
  · rename_i reentrant
    apply carries_entered
    rw [CallbackRegistry.opens, Bool.or_eq_true] at opens
    exact opens.resolve_left reentrant

/-- It joins it for good. -/
theorem joins_of_mem : ∀ {forest : Forest}, forest.names.Nodup → call ∈ forest → r.opens call = true →
    r.joins forest call.callbackName = r.owner call.callbackName
  | first :: older, nodup, member, opens => by
      obtain ⟨new, nodup'⟩ := List.nodup_cons.1 nodup
      rcases List.mem_cons.1 member with rfl | old
      · exact joins_of_opens opens
      · rw [joins_other]
        · exact joins_of_mem nodup' old opens
        · rintro same
          exact new (same ▸ List.mem_map_of_mem old)

theorem entered_of_caller {before : String} (caller : call.caller = some before) :
    r.entered call.caller = !r.adjacencyList.continues before := by
  rw [caller]
  rfl

/-- The hand-overs after one more first call: at most one is new, from an opened
owner to the callback's own. -/
theorem handsOver_cons {o o' : Owner} (edge : r.HandsOver (call :: forest) o o') :
    r.HandsOver forest o o' ∨ ∃ before, call.caller = some before ∧ r.entered call.caller = true ∧
      o = r.carries forest before ∧ o' = r.owner call.callbackName := by
  cases caller : call.caller with
  | none =>
      rw [HandsOver, handovers_root caller] at edge
      exact Or.inl edge
  | some before =>
      cases continuing : r.adjacencyList.continues before with
      | true =>
          rw [HandsOver, handovers_inherited _ caller continuing] at edge
          exact Or.inl edge
      | false =>
          rw [HandsOver, handovers_restarted caller continuing, List.mem_insert_iff] at edge
          rcases edge with new | old
          · cases new
            exact Or.inr ⟨before, rfl, by rw [entered, continuing]; rfl, rfl, rfl⟩
          · exact Or.inl old

/-- A call that comes from nowhere or from a callback in the forest keeps it grown. -/
theorem Grown.cons (grown : r.Grown forest) (new : call.callbackName ∉ forest.names)
    (known : ∀ before, call.caller = some before → before ∈ forest.names) :
    r.Grown (call :: forest) := by
  have own : r.entered call.caller = true → r.Opened (call :: forest) (r.owner call.callbackName) :=
    fun entered => opened_cons.2 (Or.inl ⟨opens_of_entered entered, rfl⟩)
  refine ⟨List.nodup_cons.2 ⟨new, grown.nodup⟩, fun name member => ?_, fun o o' edge => ?_, ?_⟩
  · by_cases same : name = call.callbackName
    · subst same
      by_cases entered : r.entered call.caller = true
      · rw [carries_entered entered]
        exact own entered
      · -- an inherited threadgroup is that of the caller
        obtain ⟨before, caller⟩ : ∃ before, call.caller = some before := by
          cases caller : call.caller with
          | none => rw [caller] at entered; exact absurd rfl entered
          | some before => exact ⟨before, rfl⟩
        rw [carries_inherited _ caller (by simpa [entered_of_caller caller] using entered)]
        exact (grown.carried before (known before caller)).cons
    · rw [carries_other same]
      exact (grown.carried name ((mem_names_cons.1 member).resolve_left same)).cons
  · rcases handsOver_cons edge with old | ⟨before, caller, entered, rfl, rfl⟩
    · exact (grown.handed o o' old).imp Opened.cons Opened.cons
    · exact ⟨(grown.carried before (known before caller)).cons, own entered⟩
  · -- an owner that has no threadgroup yet is younger than all that have
    obtain ⟨age, bounded, younger⟩ := grown.younger
    classical
    refine ⟨fun o => if r.Opened forest o then age o else forest.length, fun o _ => ?_,
      fun o head edge => ?_⟩ <;> beta_reduce
    · split
      · exact Nat.lt_succ_of_lt (bounded o ‹_›)
      · exact Nat.lt_succ_self _
    · rcases handsOver_cons edge with old | ⟨before, caller, -, rfl, isHead⟩
      · obtain ⟨opened, opened'⟩ := grown.handed _ _ old
        rw [if_pos opened, if_pos opened']
        exact younger o head old
      · have opened := grown.carried before (known before caller)
        have unopened : ¬ r.Opened forest (.segment head) := by
          rw [← owner_segment isHead.symm]
          exact not_opened_segment new
        rw [if_pos opened, if_neg unopened]
        exact bounded _ opened

/-! ## Forests of calls that are made -/

theorem carries_older {call' : FirstCall} (new : call.callbackName ∉ forest.names) (member : call' ∈ forest) :
    r.carries (call :: forest) call'.callbackName = r.carries forest call'.callbackName :=
  carries_other fun same => new (same ▸ List.mem_map_of_mem member)

/-- A callback that is called without a threadgroup is gone on from in the one it comes to. -/
theorem carries_of_entered : ∀ {forest : Forest}, r.adjacencyList.Called forest → ∀ call ∈ forest,
    r.entered call.caller = true → r.carries forest call.callbackName = r.owner call.callbackName
  | latest :: older, called, call, member, entered => by
      obtain ⟨called, new, -⟩ := called.latest
      rcases List.mem_cons.1 member with rfl | old
      · exact carries_entered entered
      · rw [carries_older new old, carries_of_entered called call old entered]

/-- A callback that is called by going on is gone on from in the same threadgroup. -/
theorem carries_of_inherited {before : String} : ∀ {forest : Forest}, r.adjacencyList.Called forest →
    ∀ call ∈ forest, call.caller = some before → r.adjacencyList.continues before = true →
      before ∈ forest.names ∧ r.carries forest call.callbackName = r.carries forest before
  | latest :: older, called, call, member, caller, continuing => by
      obtain ⟨called, new, known⟩ := called.latest
      have sameCaller : before ∈ Forest.names older →
          r.carries (latest :: older) before = r.carries older before :=
        fun old => carries_other (by rintro rfl; exact new old)
      rcases List.mem_cons.1 member with rfl | old
      · have old := known before caller
        exact ⟨List.mem_cons_of_mem _ old, by rw [carries_inherited older caller continuing, sameCaller old]⟩
      · obtain ⟨known, same⟩ := carries_of_inherited called call old caller continuing
        exact ⟨List.mem_cons_of_mem _ known, by rw [carries_older new old, sameCaller known, same]⟩

/-- **Who hands over to whom**: a callback that does not go on, to each callback that it
is the first to call. -/
theorem handsOver_iff {o o' : Owner} : ∀ {forest : Forest}, r.adjacencyList.Called forest →
    (r.HandsOver forest o o' ↔ ∃ call ∈ forest, ∃ before, call.caller = some before ∧
      r.adjacencyList.continues before = false ∧ r.carries forest before = o ∧
      r.owner call.callbackName = o')
  | [], _ => ⟨fun edge => (by cases edge), fun ⟨_, member, _⟩ => (by cases member)⟩
  | latest :: older, called => by
      obtain ⟨called, new, known⟩ := called.latest
      have sameCaller : ∀ before ∈ Forest.names older, r.carries (latest :: older) before = r.carries older before :=
        fun before old => carries_other (by rintro rfl; exact new old)
      constructor
      · intro edge
        rcases handsOver_cons edge with old | ⟨before, caller, entered, rfl, rfl⟩
        · obtain ⟨call, member, before, caller, restarting, rfl, own⟩ := (handsOver_iff called).1 old
          refine ⟨call, List.mem_cons_of_mem _ member, before, caller, restarting, ?_, own⟩
          exact sameCaller before (called.callers call member before caller)
        · rw [entered_of_caller caller, Bool.not_eq_true'] at entered
          exact ⟨latest, List.mem_cons_self, before, caller, entered, sameCaller before (known before caller), rfl⟩
      · rintro ⟨call, member, before, caller, restarting, carried, own⟩
        rcases List.mem_cons.1 member with rfl | old
        · rw [HandsOver, handovers_restarted caller restarting, List.mem_insert_iff, ← own, ← carried,
            sameCaller before (known before caller)]
          exact Or.inl rfl
        · refine handsOver_mono ((handsOver_iff called).2 ⟨call, old, before, caller, restarting, ?_, own⟩)
          rw [← sameCaller before (called.callers call old before caller), carried]

/-! ## Who hands over to a segment -/

/-- A hand-over comes from a call that entered its callback. -/
theorem handsOver_target {o o' : Owner} : ∀ {forest : Forest}, r.HandsOver forest o o' →
    ∃ call ∈ forest, ∃ before, call.caller = some before ∧ r.entered call.caller = true ∧
      r.owner call.callbackName = o'
  | call :: older, edge => by
      rcases handsOver_cons edge with old | ⟨before, caller, entered, -, own⟩
      · obtain ⟨call', member, holds⟩ := handsOver_target old
        exact ⟨call', List.mem_cons_of_mem _ member, holds⟩
      · exact ⟨call, List.mem_cons_self, before, caller, entered, own.symm⟩

/-- Every call that entered its callback from another one is a hand-over. -/
theorem handsOver_of_entered {before : String} : ∀ {forest : Forest}, call ∈ forest →
    call.caller = some before → r.entered call.caller = true →
    ∃ o, r.HandsOver forest o (r.owner call.callbackName)
  | first :: older, member, caller, entered => by
      rcases List.mem_cons.1 member with rfl | member
      · have restarting : r.adjacencyList.continues before = false := by
          rw [entered_of_caller caller] at entered
          simpa using entered
        refine ⟨r.carries older before, ?_⟩
        rw [HandsOver, handovers_restarted caller restarting]
        exact List.mem_insert_self
      · obtain ⟨o, edge⟩ := handsOver_of_entered member caller entered
        exact ⟨o, handsOver_mono edge⟩

/-- A segment opened by the root loop is handed over to by nobody. -/
theorem Grown.root (grown : r.Grown forest) {head : String} (root : ⟨head, none⟩ ∈ forest) (o : Owner) :
    ¬ r.HandsOver forest o (.segment head) := by
  intro edge
  obtain ⟨call, member, before, caller, -, own⟩ := handsOver_target edge
  have same : call = ⟨head, none⟩ :=
    List.inj_on_of_nodup_map grown.nodup member root (owner_segment own)
  rw [same] at caller
  cases caller

/-- A segment nobody hands over to was opened by the root loop. -/
theorem root_of_not_handsOver {head : String} (opened : r.Opened forest (.segment head))
    (none_ : ∀ o, ¬ r.HandsOver forest o (.segment head)) : ⟨head, none⟩ ∈ forest := by
  obtain ⟨⟨name, caller⟩, member, opens, own⟩ := opened
  obtain rfl : name = head := owner_segment own
  cases caller with
  | none => exact member
  | some before =>
      have entered : r.entered (some before) = true := by
        rw [CallbackRegistry.opens, own] at opens
        simpa [Owner.isMutex] using opens
      obtain ⟨o, edge⟩ := handsOver_of_entered member rfl entered
      exact absurd (own ▸ edge) (none_ o)

/-- A segment is handed over to by one owner at most. -/
theorem segment_predecessor {o o' : Owner} {head : String} : ∀ {forest : Forest}, forest.names.Nodup →
    r.HandsOver forest o (.segment head) → r.HandsOver forest o' (.segment head) → o = o'
  | call :: older, nodup, edge, edge' => by
      obtain ⟨new, nodup'⟩ := List.nodup_cons.1 nodup
      have notOld : r.owner call.callbackName = .segment head → ∀ o, ¬ r.HandsOver older o (.segment head) := by
        intro own o edge
        obtain ⟨call', member, -, -, -, own'⟩ := handsOver_target edge
        exact new ((owner_segment own).trans (owner_segment own').symm ▸ List.mem_map_of_mem member)
      rcases handsOver_cons edge with old | ⟨before, caller, -, rfl, own⟩ <;>
        rcases handsOver_cons edge' with old' | ⟨before', caller', -, rfl, own'⟩
      · exact segment_predecessor nodup' old old'
      · exact absurd old (notOld own'.symm o)
      · exact absurd old' (notOld own.symm o')
      · rw [caller] at caller'
        cases caller'
        rfl

/-! ## Coming back to a threadgroup -/

/-- **Only mutex groups are come back to**: a cycle of hand-overs leads through one. -/
theorem Grown.cycle (grown : r.Grown forest) {o : Owner}
    (cycle : Relation.TransGen (r.HandsOver forest) o o) :
    ∃ group, Relation.ReflTransGen (r.HandsOver forest) o (.mutexGroup group) ∧
      Relation.TransGen (r.HandsOver forest) (.mutexGroup group) (.mutexGroup group) := by
  by_contra none_
  obtain ⟨age, -, younger⟩ := grown.younger
  have older : ∀ o', Relation.TransGen (r.HandsOver forest) o o' →
      Relation.ReflTransGen (r.HandsOver forest) o' o → age o < age o' := by
    intro o' path
    induction path with
    | @single o' edge =>
        intro back
        cases o' with
        | mutexGroup group =>
            exact absurd ⟨group, .single edge, Relation.TransGen.tail'_iff.2 ⟨o, back, edge⟩⟩ none_
        | segment head => exact younger o head edge
    | @tail b o' path edge ih =>
        intro back
        have before := ih (.head edge back)
        cases o' with
        | mutexGroup group =>
            exact absurd ⟨group, path.to_reflTransGen.tail edge,
              Relation.TransGen.trans_right back (path.tail edge)⟩ none_
        | segment head => exact before.trans (younger b head edge)
  exact Nat.lt_irrefl _ (older o cycle .refl)

end CallbackRegistry

end PreemptiveExecutor
