/-
# Registry.Inflow — thread counts as sums over the ways of hand-overs

What an owner is to have in threads, in terms of the chains: every way of hand-overs into
it is followed back to the first owner that counts for itself, and brings what this one
counts.  An owner that no Reentrant root leads to counts 1.  Another one counts for itself
if its number of predecessors is 0 modulo 256, namely the longest deadline by the first
period of the chains that its first callback has kept.  All ways into an owner add up to
its `inflow`, and its threads are the inflow in 16 bits (`Demand.inflow`).
-/
import PreemptiveExecutor.Theory.Ways
import PreemptiveExecutor.Registry.ChainWeights
import PreemptiveExecutor.Registry.Demand

namespace PreemptiveExecutor

open Theory
open Relation (TransGen)

set_option autoImplicit false

/-- The longest deadline by the first period of the chains that a callback has kept. -/
def chainQuotient (userChains : List UserChain) (callbackName : String) : Nat :=
  match (storedChains userChains callbackName).head?,
    ((storedChains userChains callbackName).map UserChain.deadline).max? with
  | some first, some longest => longest.val / first.period.val
  | _, _ => 0

namespace CallbackRegistry

theorem quotient_stores {userChains : List UserChain} {name : String} {info : CallbackAdjacencyInfo}
    (stores : Stores info (storedChains userChains name)) : quotient info = chainQuotient userChains name := by
  rw [quotient, chainQuotient, stores.deadlines, stores.periods, List.head?_map]
  cases (storedChains userChains name).head? with
  | none => rfl
  | some first =>
      rw [Option.map_some]
      cases ((storedChains userChains name).map UserChain.deadline).max? <;> rfl

/-- The owner counts for itself. -/
def Counts (r : CallbackRegistry) (forest : Forest) (o : Owner) : Prop :=
  ¬ r.Reached forest o ∨ (r.ownersBefore forest o).length % 2 ^ 8 = 0

open Classical in
noncomputable def ownCount (r : CallbackRegistry) (userChains : List UserChain) (forest : Forest) (o : Owner) : Nat :=
  if r.Reached forest o then (r.firstCallback forest o).elim 0 (chainQuotient userChains) else 1

/-- What all ways of hand-overs into the owner bring. -/
noncomputable def inflow (r : CallbackRegistry) (userChains : List UserChain) (forest : Forest) (o : Owner) : Nat :=
  Theory.inflow (r.ownersBefore forest) (r.Counts forest) (r.ownCount userChains forest) o

variable {r : CallbackRegistry} {userChains : List UserChain} {forest : Forest} {threads : Owner → Uint16}

/-- The load of an owner is its inflow, over finitely many ways. -/
theorem Load.inflow (stores : ∀ name, Stores (UnorderedMap.subscript r.adjacencyList name) (storedChains userChains name))
    {o : Owner} {load : Nat} (loaded : r.Load forest o load) :
    {way | Way (r.ownersBefore forest) (r.Counts forest) o way}.Finite ∧ r.inflow userChains forest o = load := by
  induction loaded with
  | @root o callback reached stored first =>
      have counts : r.Counts forest o := Or.inr stored
      refine ⟨finite_starts counts, ?_⟩
      rw [CallbackRegistry.inflow, inflow_starts counts, ownCount, if_pos reached, first, quotient_stores (stores callback)]
      rfl
  | @sum o load reached stored before ih =>
      have passes : ¬ r.Counts forest o := not_or.2 ⟨not_not.2 reached, stored⟩
      refine ⟨finite_passes passes fun o' edge => (ih o' edge).1, ?_⟩
      rw [CallbackRegistry.inflow, inflow_passes passes (ownersBefore_nodup forest o) fun o' edge => (ih o' edge).1]
      exact congrArg List.sum (List.map_congr_left fun o' edge => (ih o' edge).2)
  | @other o unreached =>
      have counts : r.Counts forest o := Or.inl unreached
      refine ⟨finite_starts counts, ?_⟩
      rw [CallbackRegistry.inflow, inflow_starts counts, ownCount, if_neg unreached]

/-- **The threads of an owner are its inflow, in 16 bits.** -/
theorem Demand.inflow (demand : r.Demand forest threads) (grown : r.Grown forest)
    (noCycle : ∀ o, r.Reached forest o → ¬ TransGen (r.HandsOver forest) o o)
    (stores : ∀ name, Stores (UnorderedMap.subscript r.adjacencyList name) (storedChains userChains name)) (o : Owner) :
    (threads o).val = r.inflow userChains forest o % 2 ^ 16 := by
  obtain ⟨load, loaded⟩ := exists_load grown noCycle o
  rw [demand.load loaded, (loaded.inflow stores).2]

end CallbackRegistry

end PreemptiveExecutor
