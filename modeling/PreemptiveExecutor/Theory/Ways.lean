/-
# Theory.Ways — sums over the ways into a node

Every node has a list of nodes before it, and at some nodes a count starts.  A `Way`
leads back from a node to the first one where a count starts, and the `inflow` of a node
is what all ways into it bring, added up.  Where the ways are finitely many, a node at
which a count starts has its own count, and every other one the inflows of the nodes
before it (`inflow_starts`, `inflow_passes`).
-/
import Mathlib.Algebra.BigOperators.Finprod

namespace PreemptiveExecutor.Theory

set_option autoImplicit false

variable {α : Type} (before : α → List α) (starts : α → Prop) (count : α → Nat)

/-- The nodes of a way, from the last one back to that at which its count starts. -/
inductive Way : α → List α → Prop
  | start {a : α} (starts_ : starts a) : Way a [a]
  | step {a b : α} {way : List α} (passes : ¬ starts a) (edge : b ∈ before a) (rest : Way b way) :
      Way a (a :: way)

/-- The count that a way brings. -/
def brings (way : List α) : Nat := way.getLast?.elim 0 count

noncomputable def inflow (a : α) : Nat := ∑ᶠ way ∈ {way | Way before starts a way}, brings count way

variable {before starts count}

theorem Way.head {a : α} {way : List α} (is : Way before starts a way) : way.head? = some a := by
  cases is <;> rfl

theorem brings_cons {a b : α} {way : List α} (is : Way before starts b way) :
    brings count (a :: way) = brings count way := by
  unfold brings
  cases way with
  | nil => cases is
  | cons b way => rw [List.getLast?_cons_cons]

theorem ways_starts {a : α} (here : starts a) : {way | Way before starts a way} = {[a]} := by
  ext way
  constructor
  · intro is
    cases is with
    | start _ => rfl
    | step passes _ _ => exact absurd here passes
  · rintro rfl
    exact .start here

theorem ways_passes {a : α} (passes : ¬ starts a) :
    {way | Way before starts a way} =
      ⋃ b ∈ {b | b ∈ before a}, (fun way => a :: way) '' {way | Way before starts b way} := by
  ext way
  simp only [Set.mem_iUnion, Set.mem_image, Set.mem_ofPred_eq]
  constructor
  · intro is
    cases is with
    | start here => exact absurd here passes
    | step _ edge rest => exact ⟨_, edge, _, rest, rfl⟩
  · rintro ⟨b, edge, way, rest, rfl⟩
    exact .step passes edge rest

theorem finite_starts {a : α} (here : starts a) : {way | Way before starts a way}.Finite := by
  rw [ways_starts here]
  exact Set.finite_singleton _

theorem finite_passes {a : α} (passes : ¬ starts a)
    (finite : ∀ b ∈ before a, {way | Way before starts b way}.Finite) : {way | Way before starts a way}.Finite := by
  rw [ways_passes passes]
  exact Set.Finite.biUnion (before a).finite_toSet fun b edge => (finite b edge).image _

/-- **Where a count starts, there is that count.** -/
theorem inflow_starts {a : α} (here : starts a) : inflow before starts count a = count a := by
  rw [inflow, ways_starts here, finsum_mem_singleton]
  rfl

/-- **Elsewhere the inflow is that of the nodes before.** -/
theorem inflow_passes {a : α} (passes : ¬ starts a) (nodup : (before a).Nodup)
    (finite : ∀ b ∈ before a, {way | Way before starts b way}.Finite) :
    inflow before starts count a = ((before a).map (inflow before starts count)).sum := by
  classical
  have apart : {b | b ∈ before a}.PairwiseDisjoint
      fun b => (fun way => a :: way) '' {way | Way before starts b way} := by
    intro b _ b' _ different
    refine Set.disjoint_left.2 ?_
    rintro _ ⟨way, is, rfl⟩ ⟨way', is', same⟩
    obtain rfl := List.tail_eq_of_cons_eq same
    exact different (Option.some.inj (is.head.symm.trans is'.head))
  have each : ∀ b, ∑ᶠ way ∈ (fun way => a :: way) '' {way | Way before starts b way}, brings count way =
      inflow before starts count b := fun b => by
    rw [finsum_mem_image fun _ _ _ _ same => List.tail_eq_of_cons_eq same]
    exact finsum_mem_congr rfl fun way is => brings_cons is
  rw [inflow, ways_passes passes,
    finsum_mem_biUnion apart (before a).finite_toSet fun b edge => (finite b edge).image _]
  simp only [each]
  rw [show {b | b ∈ before a} = ((before a).toFinset : Set α) from by ext b; simp, finsum_mem_coe_finset,
    List.sum_toFinset _ nodup]

end PreemptiveExecutor.Theory
