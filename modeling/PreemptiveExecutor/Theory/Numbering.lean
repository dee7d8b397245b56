/-
# Theory.Numbering — numbers in the order of first occurrence

Walk along a list and give every element a number when it is met first: 1, 2, 3, …
Elements that occur again keep theirs.  Distinct elements get distinct numbers, none
is left out (`exists_number`), and what is met earlier has the smaller one
(`number_lt`).
-/
import Mathlib.Data.List.Induction
import Mathlib.Data.List.Nodup

namespace PreemptiveExecutor.Theory.Numbering

set_option autoImplicit false

variable {α : Type} [DecidableEq α]

/-- The number of an element of the list. -/
def number (l : List α) (a : α) : Nat := l.eraseDups.idxOf a + 1

theorem eraseDups_concat (l : List α) (a : α) :
    (l ++ [a]).eraseDups = if a ∈ l then l.eraseDups else l.eraseDups ++ [a] := by
  rw [List.eraseDups_append]
  split
  · rename_i old
    simp [List.removeAll, old]
  · rename_i new
    simp [List.removeAll, new, List.eraseDups_cons]

theorem eraseDups_nodup (l : List α) : l.eraseDups.Nodup := by
  induction l using List.reverseRecOn with
  | nil => exact List.nodup_nil
  | append_singleton l a ih =>
      rw [eraseDups_concat]
      split
      · exact ih
      · rename_i new
        refine List.nodup_append.2 ⟨ih, List.nodup_singleton a, fun b member c isLast same => ?_⟩
        obtain rfl := List.mem_singleton.1 isLast
        exact new (same ▸ List.mem_eraseDups.1 member)

/-- The first element that is met again changes no number. -/
theorem number_concat_of_mem {l : List α} {a : α} (old : a ∈ l) (b : α) : number (l ++ [a]) b = number l b := by
  rw [number, eraseDups_concat, if_pos old, number]

theorem number_append {l : List α} {a : α} (met : a ∈ l) (l' : List α) : number (l ++ l') a = number l a := by
  rw [number, List.eraseDups_append, List.idxOf_append_of_mem (List.mem_eraseDups.2 met), number]

/-- A new element gets the next number. -/
theorem number_concat_self {l : List α} {a : α} (new : a ∉ l) : number (l ++ [a]) a = l.eraseDups.length + 1 := by
  rw [number, eraseDups_concat, if_neg new, List.idxOf_append_of_notMem (mt List.mem_eraseDups.1 new)]
  simp

theorem number_pos (l : List α) (a : α) : 0 < number l a := Nat.succ_pos _

theorem number_le {l : List α} {a : α} (met : a ∈ l) : number l a ≤ l.eraseDups.length :=
  List.idxOf_lt_length_of_mem (List.mem_eraseDups.2 met)

/-- **Distinct elements have distinct numbers.** -/
theorem number_inj {l : List α} {a b : α} (met : a ∈ l) (same : number l a = number l b) : a = b :=
  (List.idxOf_inj (List.mem_eraseDups.2 met)).1 (Nat.succ.inj same)

/-- **No number is left out.** -/
theorem exists_number {l : List α} {n : Nat} (pos : 0 < n) (le : n ≤ l.eraseDups.length) :
    ∃ a ∈ l, number l a = n := by
  have inRange : n - 1 < l.eraseDups.length := by omega
  refine ⟨l.eraseDups[n - 1], List.mem_eraseDups.1 (List.getElem_mem inRange), ?_⟩
  have index : l.eraseDups.idxOf l.eraseDups[n - 1] = n - 1 :=
    (eraseDups_nodup l).idxOf_getElem (n - 1) inRange
  rw [number, index]
  omega

/-- **What is met earlier has the smaller number.** -/
theorem number_lt {l l' : List α} {a b : α} (earlier : a ∈ l) (later : b ∉ l) :
    number (l ++ l') a < number (l ++ l') b := by
  have bound := number_le earlier
  have next : l.eraseDups.length ≤ (l ++ l').eraseDups.idxOf b := by
    rw [List.eraseDups_append, List.idxOf_append_of_notMem (mt List.mem_eraseDups.1 later)]
    exact Nat.le_add_right _ _
  rw [number_append earlier]
  show number l a < (l ++ l').eraseDups.idxOf b + 1
  omega

/-- A list with at least `n` distinct elements begins with one that has exactly `n`. -/
theorem exists_split (l : List α) {n : Nat} (le : n ≤ l.eraseDups.length) :
    ∃ l₁ l₂, l = l₁ ++ l₂ ∧ l₁.eraseDups.length = n := by
  induction l using List.reverseRecOn with
  | nil => exact ⟨[], [], rfl, (Nat.le_zero.1 le).symm⟩
  | append_singleton l a ih =>
      by_cases few : n ≤ l.eraseDups.length
      · obtain ⟨l₁, l₂, rfl, exactly⟩ := ih few
        exact ⟨l₁, l₂ ++ [a], List.append_assoc .., exactly⟩
      · refine ⟨l ++ [a], [], (List.append_nil _).symm, ?_⟩
        rw [eraseDups_concat] at le ⊢
        split at le
        · exact absurd le few
        · rename_i new
          rw [if_neg new]
          rw [List.length_append, List.length_singleton] at le ⊢
          omega

end PreemptiveExecutor.Theory.Numbering
