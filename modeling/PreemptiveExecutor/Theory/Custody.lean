/-
# Theory.Custody — items that are taken by test-and-set

Each item has a flag, and each of several parties a set of items.  A party takes an item
by exchanging its flag for true, if the flag was clear, and clears the flags of items it
has.  Then a flag is set exactly while some party has the item, and no two parties ever
have one item (`Custody`), in whatever order they take and release.
-/
import Mathlib.Logic.Function.Basic

namespace PreemptiveExecutor.Theory

set_option autoImplicit false

/-- The flags say what is taken, and nobody shares. -/
structure Custody {ι η : Type} (flag : ι → Bool) (has : η → ι → Prop) : Prop where
  flagged : ∀ i, flag i = true ↔ ∃ h, has h i
  sole : ∀ h h' i, has h i → has h' i → h' = h

namespace Custody

variable {ι η : Type} {flag : ι → Bool} {has has' : η → ι → Prop}

theorem none_ : Custody (fun _ : ι => false) fun (_ : η) _ => False :=
  ⟨fun _ => ⟨nofun, fun ⟨_, held⟩ => held.elim⟩, fun _ _ _ held => held.elim⟩

theorem congr (custody : Custody flag has) (same : ∀ h i, has' h i ↔ has h i) : Custody flag has' where
  flagged i := (custody.flagged i).trans (exists_congr fun h => (same h i).symm)
  sole h h' i held held' := custody.sole h h' i ((same h i).1 held) ((same h' i).1 held')

/-- A party takes an item whose flag is clear. -/
theorem take [DecidableEq ι] (custody : Custody flag has) {h : η} {i : ι} (free : flag i = false)
    (now : ∀ h' i', has' h' i' ↔ has h' i' ∨ h' = h ∧ i' = i) :
    Custody (Function.update flag i true) has' where
  flagged i' := by
    by_cases same : i' = i
    · subst same
      rw [Function.update_self]
      exact ⟨fun _ => ⟨h, (now h i').2 (Or.inr ⟨rfl, rfl⟩)⟩, fun _ => rfl⟩
    · rw [Function.update_of_ne same, custody.flagged]
      exact exists_congr fun h' => ((now h' i').trans (or_iff_left fun ⟨_, here⟩ => same here)).symm
  sole h₁ h₂ i' held held' := by
    have nobody : ∀ h', ¬ has h' i := fun h' held => by
      rw [(custody.flagged i).2 ⟨h', held⟩] at free
      cases free
    rcases (now h₁ i').1 held with before | ⟨rfl, rfl⟩
    · rcases (now h₂ i').1 held' with before' | ⟨-, rfl⟩
      · exact custody.sole h₁ h₂ i' before before'
      · exact absurd before (nobody h₁)
    · rcases (now h₂ i').1 held' with before' | ⟨rfl, -⟩
      · exact absurd before' (nobody h₂)
      · rfl

/-- A party releases items that it has. -/
theorem release (custody : Custody flag has) {h : η} {released : ι → Prop} [DecidablePred released]
    (held : ∀ i, released i → has h i) (now : ∀ h' i, has' h' i ↔ has h' i ∧ ¬ (h' = h ∧ released i)) :
    Custody (fun i => flag i && decide (¬ released i)) has' where
  flagged i := by
    rw [Bool.and_eq_true, decide_eq_true_eq, custody.flagged]
    constructor
    · rintro ⟨⟨h', has_⟩, stays⟩
      exact ⟨h', (now h' i).2 ⟨has_, fun ⟨_, gone⟩ => stays gone⟩⟩
    · rintro ⟨h', has_⟩
      obtain ⟨before, stays⟩ := (now h' i).1 has_
      exact ⟨⟨h', before⟩, fun gone => stays ⟨custody.sole h h' i (held i gone) before, gone⟩⟩
  sole h₁ h₂ i held₁ held₂ := custody.sole h₁ h₂ i ((now h₁ i).1 held₁).1 ((now h₂ i).1 held₂).1

end Custody

end PreemptiveExecutor.Theory
