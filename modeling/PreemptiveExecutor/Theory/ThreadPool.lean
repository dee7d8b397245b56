/-
# Theory.ThreadPool — counting over a list of threads

The threads of a pool are a list of program points; a step of thread `i` is
`threads.set i`.  The two lemmas say what such a step does to a count of threads
and to what the threads hold between them.
-/
import Mathlib.Algebra.Order.Group.Multiset
import Mathlib.Algebra.Ring.Nat

namespace PreemptiveExecutor.Theory.ThreadPool

set_option autoImplicit false

variable {α β : Type}

theorem exists_split {threads : List α} {i : Nat} {w : α} (at_ : threads[i]? = some w) :
    ∃ before after, threads = before ++ w :: after ∧ (∀ w', threads.set i w' = before ++ w' :: after) ∧
      threads.eraseIdx i = before ++ after := by
  obtain ⟨inRange, rfl⟩ := List.getElem?_eq_some_iff.1 at_
  refine ⟨threads.take i, threads.drop (i + 1), ?_, fun w' => ?_, List.eraseIdx_eq_take_drop_succ ..⟩
  · rw [List.getElem_cons_drop, List.take_append_drop]
  · rw [List.set_eq_take_append_cons_drop, if_pos inRange]

/-- What thread `v` contributes, apart from the other threads. -/
theorem mem_filterMap_split {before after : List α} {v : α} {f : α → Option β} {b : β} :
    b ∈ (before ++ v :: after).filterMap f ↔ b ∈ (f v).toList ∨ b ∈ (before ++ after).filterMap f := by
  rw [List.filterMap_append, List.filterMap_cons, List.filterMap_append]
  cases f v with
  | none => simp
  | some a => simp only [Option.toList_some, List.mem_append, List.mem_cons, List.not_mem_nil, or_false,
      or_left_comm]

/-- A step moves thread `i` out of the counts it was in and into its new ones. -/
theorem countP_set {threads : List α} {i : Nat} {w : α} (at_ : threads[i]? = some w) (w' : α)
    (p : α → Bool) :
    (threads.set i w').countP p + (if p w then 1 else 0) = threads.countP p + (if p w' then 1 else 0) := by
  obtain ⟨before, after, split, set_, -⟩ := exists_split at_
  rw [set_, split]
  simp only [List.countP_append, List.countP_cons]
  omega

/-- A step moves what thread `i` weighs, and nothing else, in the sum of the weights. -/
theorem sum_set {threads : List α} {i : Nat} {w : α} (at_ : threads[i]? = some w) (w' : α) (f : α → Nat) :
    ((threads.set i w').map f).sum + f w = (threads.map f).sum + f w' := by
  obtain ⟨before, after, split, set_, -⟩ := exists_split at_
  rw [set_, split]
  simp only [List.map_append, List.map_cons, List.sum_append, List.sum_cons]
  omega

/-- A step of thread `i` that keeps what is read of it. -/
theorem map_set_of_same {threads : List α} {i : Nat} {w : α} (at_ : threads[i]? = some w) {w' : α}
    {f : α → β} (same : f w' = f w) : (threads.set i w').map f = threads.map f := by
  obtain ⟨before, after, split, set_, -⟩ := exists_split at_
  rw [set_, split, List.map_append, List.map_append, List.map_cons, List.map_cons, same]

/-- What the threads hold between them, after a step of thread `i`. -/
theorem filterMap_set {threads : List α} {i : Nat} {w : α} (at_ : threads[i]? = some w) (w' : α)
    (holds : α → Option β) :
    (↑((threads.set i w').filterMap holds) + ↑(holds w).toList : Multiset β) =
      ↑(threads.filterMap holds) + ↑(holds w').toList := by
  obtain ⟨before, after, split, set_, -⟩ := exists_split at_
  have pull : ∀ v : α, (↑((before ++ v :: after).filterMap holds) : Multiset β) =
      ↑(holds v).toList + ↑((before ++ after).filterMap holds) := by
    intro v
    rw [List.filterMap_append, List.filterMap_cons, List.filterMap_append]
    cases holds v with
    | none => simp
    | some b =>
        simp only [Option.toList_some, ← List.singleton_append (l := List.filterMap holds after),
          ← Multiset.coe_add]
        ac_rfl
  rw [set_, split, pull, pull]
  ac_rfl

end PreemptiveExecutor.Theory.ThreadPool
