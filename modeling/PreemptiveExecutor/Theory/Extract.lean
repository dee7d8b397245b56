/-
# Theory.Extract — taking one item out of a list by a scan

A scan looks at the items of a list from the front.  An item that is stale is dropped, one
that is busy stays where it is, and the first that can be taken ends the scan.  A look may
change a state; if only the look that takes an item does (`Quiet`), every other item was
judged in the state the scan began in, and the list is accounted for by what was taken,
what was dropped and what is left (`extract_accounts`).
-/
import Mathlib.Data.List.Perm.Basic

namespace PreemptiveExecutor.Theory

set_option autoImplicit false

inductive Verdict (β : Type) where
  | drop
  | keep
  | take (found : β)

variable {σ α β : Type}

/-- What was taken, the state after the last look, and the items left. -/
def extract (look : σ → α → Verdict β × σ) : σ → List α → Option β × σ × List α
  | s, [] => (none, s, [])
  | s, item :: items =>
      match look s item with
      | (.take found, s') => (some found, s', items)
      | (.drop, s') => extract look s' items
      | (.keep, s') =>
          let (found, s'', rest) := extract look s' items
          (found, s'', item :: rest)

/-- A look that does not take the item leaves the state alone. -/
def Quiet (look : σ → α → Verdict β × σ) : Prop :=
  ∀ s item, (∃ found, (look s item).1 = .take found) ∨ (look s item).2 = s

/-- What became of the items of a scan that began in `s`. -/
structure Extracted (look : σ → α → Verdict β × σ) (s : σ) (items taken dropped rest : List α)
    (found : Option β) (s' : σ) : Prop where
  perm : items.Perm (taken ++ (dropped ++ rest))
  sublist : rest.Sublist items
  stale : ∀ item ∈ dropped, (look s item).1 = .drop
  outcome : found = none ∧ s' = s ∧ taken = [] ∧ (∀ item ∈ rest, (look s item).1 = .keep) ∨
    ∃ b item, found = some b ∧ taken = [item] ∧ look s item = (.take b, s')

theorem extract_accounts {look : σ → α → Verdict β × σ} (quiet : Quiet look) (s : σ) (items : List α) :
    ∃ taken dropped, Extracted look s items taken dropped (extract look s items).2.2 (extract look s items).1
      (extract look s items).2.1 := by
  induction items with
  | nil =>
      exact ⟨[], [], .nil, .refl _, List.forall_mem_nil _, Or.inl ⟨rfl, rfl, rfl, List.forall_mem_nil _⟩⟩
  | cons item items ih =>
      obtain ⟨taken, dropped, perm, sublist, stale, outcome⟩ := ih
      -- unless the item is taken, the rest is scanned in the same state
      rcases seen : look s item with ⟨verdict, s'⟩
      have still : (∃ found, verdict = .take found) ∨ s' = s := by
        have := quiet s item
        rwa [seen] at this
      cases verdict with
      | take found =>
          refine ⟨[item], [], ?_⟩
          simp only [extract, seen]
          exact ⟨.refl _, List.sublist_cons_self _ _, List.forall_mem_nil _,
            Or.inr ⟨found, item, rfl, rfl, seen⟩⟩
      | drop =>
          obtain rfl : s' = s := still.resolve_left fun ⟨_, taken⟩ => nomatch taken
          refine ⟨taken, item :: dropped, ?_⟩
          simp only [extract, seen]
          refine ⟨(perm.cons item).trans List.perm_middle.symm, sublist.cons item, ?_, outcome⟩
          exact List.forall_mem_cons.2 ⟨by rw [seen], stale⟩
      | keep =>
          obtain rfl : s' = s := still.resolve_left fun ⟨_, taken⟩ => nomatch taken
          refine ⟨taken, dropped, ?_⟩
          simp only [extract, seen]
          refine ⟨?_, sublist.cons_cons item, stale, ?_⟩
          · refine (perm.cons item).trans ?_
            rw [← List.append_assoc, ← List.append_assoc]
            exact List.perm_middle.symm
          · rcases outcome with ⟨none_, same, nothing, kept⟩ | found
            · exact Or.inl ⟨none_, same, nothing, List.forall_mem_cons.2 ⟨by rw [seen], kept⟩⟩
            · exact Or.inr found

end PreemptiveExecutor.Theory
