/-
# Theory.Acyclic — heights in a relation without cycles

In a relation whose steps end in a finite set, the `height` of an element counts
the elements of the set it leads to.  A step into an element that is on no cycle
loses height, so a recursion along the steps is bounded by the height
(`height_lt`), and a property that passes from all predecessors of an element to
the element holds everywhere (`induction_forwards`).
-/
import Mathlib.Data.Finset.Card
import Mathlib.Logic.Relation

namespace PreemptiveExecutor.Theory

open Relation (TransGen ReflTransGen)

set_option autoImplicit false

/-- No element leads back to itself. -/
def Acyclic {α : Type} (step : α → α → Prop) : Prop := ∀ a, ¬ TransGen step a a

namespace Acyclic

variable {α : Type} {step : α → α → Prop}

open Classical in
/-- The number of elements of `range` that `a` leads to. -/
noncomputable def height (step : α → α → Prop) (range : Finset α) (a : α) : Nat :=
  (range.filter fun b => TransGen step a b).card

theorem height_le (range : Finset α) (a : α) : height step range a ≤ range.card := by
  classical
  exact Finset.card_filter_le _ _

/-- **A step loses height** unless it leads into a cycle. -/
theorem height_lt {range : Finset α} {a b : α} (into : b ∈ range) (noCycle : ¬ TransGen step b b)
    (edge : step a b) : height step range b < height step range a := by
  classical
  refine Finset.card_lt_card ⟨fun c member => ?_, fun all => ?_⟩
  · obtain ⟨inRange, onwards⟩ := Finset.mem_filter.1 member
    exact Finset.mem_filter.2 ⟨inRange, TransGen.head edge onwards⟩
  · have back := all (Finset.mem_filter.2 ⟨into, TransGen.single edge⟩)
    exact noCycle (Finset.mem_filter.1 back).2

/-- A relation with its steps reversed has the same cycles. -/
theorem swap (acyclic : Acyclic step) : Acyclic fun a b => step b a := fun a cycle =>
  acyclic a (Relation.transGen_swap.1 cycle)

/-- A relation whose steps climb has no cycle. -/
theorem of_rank (rank : α → Nat) (climbs : ∀ a b, step a b → rank a < rank b) : Acyclic step := by
  intro a cycle
  have climbed : ∀ b, TransGen step a b → rank a < rank b := by
    intro b path
    induction path with
    | single edge => exact climbs _ _ edge
    | tail _ edge ih => exact ih.trans (climbs _ _ edge)
  exact Nat.lt_irrefl _ (climbed a cycle)

/-- **Induction along the steps**: what an element inherits from all of its
predecessors, every element has. -/
theorem induction_forwards (acyclic : Acyclic step) (range : Finset α)
    (from_ : ∀ a b, step a b → a ∈ range) {P : α → Prop}
    (inherits : ∀ b, (∀ a, step a b → P a) → P b) (b : α) : P b := by
  induction size : height (fun a b => step b a) range b using Nat.strong_induction_on generalizing b with
  | _ size ih =>
      refine inherits b fun a edge => ih _ ?_ a rfl
      rw [← size]
      exact height_lt (from_ a b edge) (acyclic.swap a) edge

end Acyclic

section Reachable

variable {α β : Type} {step : α → α → Prop}

/-- Where no descent is infinite, no cycle is reached. -/
theorem not_cycle_of_acc {a : α} (acc : Acc (fun b a => step a b) a) {b : α} (reached : ReflTransGen step a b) :
    ¬ TransGen step b b := by
  have accB : Acc (fun b a => step a b) b := by
    induction reached with
    | refl => exact acc
    | tail _ edge ih => exact ih.inv edge
  induction accB with
  | intro b _ ih =>
      intro cycle
      obtain ⟨c, edge, back⟩ := (TransGen.head'_iff).1 cycle
      exact ih c edge (reached.tail edge) ((TransGen.tail'_iff).2 ⟨b, back, edge⟩)

/-- A relation that is another one under names: a path between names is the name
of a path. -/
theorem transGen_of_names {named : β → β → Prop} {name : α → β} {known : α → Prop}
    (edges : ∀ x y, named x y ↔ ∃ a b, step a b ∧ name a = x ∧ name b = y)
    (ends : ∀ a b, step a b → known a ∧ known b)
    (injective : ∀ a b, known a → known b → name a = name b → a = b) {a : α} (isKnown : known a) {y : β}
    (path : TransGen named (name a) y) : ∃ b, known b ∧ name b = y ∧ TransGen step a b := by
  have forward : ∀ b, known b → ∀ y, named (name b) y → ∃ c, known c ∧ name c = y ∧ step b c := by
    intro b knownB y edge
    obtain ⟨b', c, edge', same, rfl⟩ := (edges _ _).1 edge
    obtain rfl := injective b' b (ends b' c edge').1 knownB same
    exact ⟨c, (ends b' c edge').2, rfl, edge'⟩
  induction path with
  | single edge =>
      obtain ⟨b, knownB, isName, edge'⟩ := forward a isKnown _ edge
      exact ⟨b, knownB, isName, .single edge'⟩
  | tail _ edge ih =>
      obtain ⟨b, knownB, rfl, path'⟩ := ih
      obtain ⟨c, knownC, isName, edge'⟩ := forward b knownB _ edge
      exact ⟨c, knownC, isName, path'.tail edge'⟩

theorem transGen_names {named : β → β → Prop} {name : α → β}
    (edges : ∀ x y, named x y ↔ ∃ a b, step a b ∧ name a = x ∧ name b = y) {a b : α}
    (path : TransGen step a b) : TransGen named (name a) (name b) :=
  path.lift name fun a b edge => (edges _ _).2 ⟨a, b, edge, rfl, rfl⟩

end Reachable

end PreemptiveExecutor.Theory
