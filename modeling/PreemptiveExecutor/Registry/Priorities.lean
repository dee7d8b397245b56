/-
# Registry.Priorities — the priority loop

The loop hands out 1, 2, 3, … over the deadline map in iteration order and skips
a threadgroup that already has a priority.  It changes priorities only
(`assignFixedPriorities_sameButPriority`), and the threadgroup met first, which is
one of smallest deadline, gets priority 1 (`assignFixedPriorities_first`).  As long
as the 16-bit counter does not wrap, the priorities are the numbers of the
threadgroups in the order in which they are met (`foldl_assignFixedPriority_number`).
-/
import PreemptiveExecutor.Theory.Numbering
import PreemptiveExecutor.Registry.ThreadgroupIds

namespace PreemptiveExecutor

open Theory
open Theory.Numbering (number)

set_option autoImplicit false

namespace CallbackRegistry

/-- The same threadgroup, with another priority. -/
def SameButPriority (a b : ThreadGroupInfo) : Prop :=
  b = { a with fixedPriority := b.fixedPriority }

theorem SameButPriority.refl (a : ThreadGroupInfo) : SameButPriority a a := rfl

section Loop

variable {m : UnorderedMap Nat ThreadGroupInfo}

theorem assignFixedPriority_sameButPriority {state : UnorderedMap Nat ThreadGroupInfo × Uint16} {id : Nat}
    (present : id ∈ state.1) :
    UnorderedMap.SameEntries SameButPriority state.1 (assignFixedPriority state id).1 := by
  unfold assignFixedPriority
  split
  · exact UnorderedMap.sameEntries_update SameButPriority.refl present fun _ _ => rfl
  · exact UnorderedMap.sameEntries_refl SameButPriority.refl _

theorem foldl_assignFixedPriority_sameButPriority (ids : List Nat) :
    ∀ state : UnorderedMap Nat ThreadGroupInfo × Uint16, (∀ id ∈ ids, id ∈ state.1) →
      UnorderedMap.SameEntries SameButPriority state.1 (ids.foldl assignFixedPriority state).1 := by
  induction ids with
  | nil => intro state _; exact UnorderedMap.sameEntries_refl SameButPriority.refl _
  | cons id ids ih =>
      intro state present
      obtain ⟨here, later⟩ := List.forall_mem_cons.1 present
      have step := assignFixedPriority_sameButPriority here
      refine step.trans (ih _ fun id' member => (step.mem_iff id').1 (later id' member)) ?_
      intro a b c h₁ h₂
      rw [SameButPriority, h₂, h₁]

/-- A priority that has been assigned stays. -/
theorem foldl_assignFixedPriority_keeps {id : Nat} (ids : List Nat) :
    ∀ state : UnorderedMap Nat ThreadGroupInfo × Uint16,
      (UnorderedMap.subscript state.1 id).fixedPriority ≠ 0 →
      (UnorderedMap.subscript (ids.foldl assignFixedPriority state).1 id).fixedPriority =
        (UnorderedMap.subscript state.1 id).fixedPriority := by
  induction ids with
  | nil => intro state _; rfl
  | cons id' ids ih =>
      intro state assigned
      have step : (UnorderedMap.subscript (assignFixedPriority state id').1 id).fixedPriority =
          (UnorderedMap.subscript state.1 id).fixedPriority := by
        unfold assignFixedPriority
        split
        · rename_i unassigned
          have other : id ≠ id' := by rintro rfl; exact assigned unassigned
          simp [other]
        · rfl
      rw [List.foldl_cons, ih _ (by rw [step]; exact assigned), step]

/-- The threadgroup met first gets priority 1. -/
theorem foldl_assignFixedPriority_first {first : Nat} (rest : List Nat)
    (unassigned : (UnorderedMap.subscript m first).fixedPriority = 0) :
    (UnorderedMap.subscript ((first :: rest).foldl assignFixedPriority (m, 1)).1 first).fixedPriority =
      1 := by
  have one : (UnorderedMap.subscript (assignFixedPriority (m, 1) first).1 first).fixedPriority = 1 := by
    unfold assignFixedPriority
    rw [if_pos unassigned]
    simp
  rw [List.foldl_cons, foldl_assignFixedPriority_keeps rest _ (by rw [one]; decide), one]

/-- **The loop numbers the threadgroups** in the order in which it meets them. -/
theorem foldl_assignFixedPriority_number
    (unassigned : ∀ id, (UnorderedMap.subscript m id).fixedPriority = 0) (ids : List Nat)
    (few : ids.eraseDups.length < 2 ^ 16) :
    (∀ id, (UnorderedMap.subscript (ids.foldl assignFixedPriority (m, 1)).1 id).fixedPriority.val =
      if id ∈ ids then number ids id else 0) ∧
    (ids.foldl assignFixedPriority (m, 1)).2 = Fin.ofNat _ (ids.eraseDups.length + 1) := by
  induction ids using List.reverseRecOn with
  | nil => exact ⟨fun id => congrArg Fin.val (unassigned id), rfl⟩
  | append_singleton ids id ih =>
      rw [List.foldl_concat]
      by_cases old : id ∈ ids
      · -- a threadgroup met before has its number already
        rw [Numbering.eraseDups_concat, if_pos old] at few ⊢
        obtain ⟨numbers, counter⟩ := ih few
        have assigned : (UnorderedMap.subscript (ids.foldl assignFixedPriority (m, 1)).1 id).fixedPriority ≠ 0 := by
          intro zero
          have value := numbers id
          rw [zero, if_pos old] at value
          exact Nat.ne_of_lt (Numbering.number_pos ids id) value
        rw [assignFixedPriority, if_neg assigned]
        refine ⟨fun id' => ?_, counter⟩
        rw [numbers, Numbering.number_concat_of_mem old]
        simp only [List.mem_append, List.mem_singleton]
        congr 1
        exact propext ⟨Or.inl, fun met => met.elim (fun old => old) fun same => same ▸ old⟩
      · rw [Numbering.eraseDups_concat, if_neg old, List.length_append, List.length_singleton] at few ⊢
        obtain ⟨numbers, counter⟩ := ih (Nat.lt_of_succ_lt few)
        have zero : (UnorderedMap.subscript (ids.foldl assignFixedPriority (m, 1)).1 id).fixedPriority = 0 := by
          apply Fin.ext
          rw [numbers, if_neg old]
          rfl
        rw [assignFixedPriority, if_pos zero]
        refine ⟨fun id' => ?_, ?_⟩
        · simp only [UnorderedMap.subscript_update, List.mem_append, List.mem_singleton]
          by_cases same : id' = id
          · subst same
            rw [if_pos rfl, if_pos (Or.inr rfl), counter, Numbering.number_concat_self old]
            exact Nat.mod_eq_of_lt few
          · rw [if_neg same, numbers]
            simp only [same, or_false]
            split
            · rename_i met
              rw [Numbering.number_append met]
            · rfl
        · rw [counter]
          apply Fin.ext
          show ((ids.eraseDups.length + 1) % 2 ^ 16 + 1) % 2 ^ 16 = (ids.eraseDups.length + 1 + 1) % 2 ^ 16
          omega

end Loop

variable {s : TraversalState}

theorem assignFixedPriorities_sameButPriority (sound : s.Sound) :
    UnorderedMap.SameEntries SameButPriority s.threadgroupCallbackMap
      (assignFixedPriorities s).threadgroupCallbackMap :=
  foldl_assignFixedPriority_sameButPriority _ (s.threadgroupCallbackMap, 1) fun id member =>
    let ⟨deadline, recorded⟩ := OrderedMultimap.mem_values.1 member
    sound.deadlines deadline id recorded

theorem assignFixedPriorities_sound (sound : s.Sound) : (assignFixedPriorities s).Sound := by
  refine sound.registry.of_sameRecords rfl rfl rfl rfl
    ((assignFixedPriorities_sameButPriority sound).imp ?_)
  rintro a b h
  rw [SameThreadgroup, h]
  exact ⟨rfl, rfl⟩

theorem assignFixedPriorities_first {first : Nat} {rest : List Nat}
    (head : OrderedMultimap.values s.deadlineToThreadgroupIdMap = first :: rest)
    (unassigned : (UnorderedMap.subscript s.threadgroupCallbackMap first).fixedPriority = 0) :
    (UnorderedMap.subscript (assignFixedPriorities s).threadgroupCallbackMap first).fixedPriority = 1 := by
  rw [assignFixedPriorities, head]
  exact foldl_assignFixedPriority_first rest unassigned

end CallbackRegistry

end PreemptiveExecutor
