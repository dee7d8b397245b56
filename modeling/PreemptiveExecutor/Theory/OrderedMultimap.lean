/-
# Theory.OrderedMultimap — an ordered map from keys to lists of values

`std::map<K, std::vector<V>>` filled by `m[k].push_back(v)`: the keys ascend,
and the values of one key keep the order in which they were pushed.

`Recorded m k v` says that `v` was pushed under `k`; `Least m v k` that `k` is
the smallest such key.  Iterating the map and its vectors visits `values`, and
the value met first has the least key of all (`least_head`).
-/
import Mathlib.Order.Defs.LinearOrder
import Mathlib.Order.WellFounded
import Mathlib.Order.Lattice
import Mathlib.Tactic.Tauto

namespace PreemptiveExecutor.Theory

set_option autoImplicit false

abbrev OrderedMultimap (κ α : Type) := List (κ × List α)

namespace OrderedMultimap

variable {κ α : Type}

/-- The values in iteration order. -/
def values (m : OrderedMultimap κ α) : List α := m.flatMap Prod.snd

def Recorded (m : OrderedMultimap κ α) (key : κ) (value : α) : Prop :=
  ∃ values, (key, values) ∈ m ∧ value ∈ values

@[simp] theorem not_recorded_nil (key : κ) (value : α) : ¬ Recorded [] key value := by
  rintro ⟨values, member, -⟩
  cases member

theorem recorded_cons {entry : κ × List α} {m : OrderedMultimap κ α} {key : κ} {value : α} :
    Recorded (entry :: m) key value ↔ (key = entry.1 ∧ value ∈ entry.2) ∨ Recorded m key value := by
  constructor
  · rintro ⟨values, member, pushed⟩
    cases member with
    | head => exact Or.inl ⟨rfl, pushed⟩
    | tail _ member => exact Or.inr ⟨values, member, pushed⟩
  · rintro (⟨rfl, pushed⟩ | ⟨values, member, pushed⟩)
    · exact ⟨entry.2, List.mem_cons_self, pushed⟩
    · exact ⟨values, List.mem_cons_of_mem _ member, pushed⟩

theorem mem_values {m : OrderedMultimap κ α} {value : α} :
    value ∈ values m ↔ ∃ key, Recorded m key value := by
  simp only [values, List.mem_flatMap, Recorded]
  constructor
  · rintro ⟨⟨key, vs⟩, member, pushed⟩
    exact ⟨key, vs, member, pushed⟩
  · rintro ⟨key, vs, member, pushed⟩
    exact ⟨(key, vs), member, pushed⟩

variable [LinearOrder κ]

/-- `m[key].push_back(value)`. -/
def pushBack (key : κ) (value : α) : OrderedMultimap κ α → OrderedMultimap κ α
  | [] => [(key, [value])]
  | (key', values) :: rest =>
      if key < key' then (key, [value]) :: (key', values) :: rest
      else if key = key' then (key', values ++ [value]) :: rest
      else (key', values) :: pushBack key value rest

/-- The smallest key a value is recorded under. -/
def Least (m : OrderedMultimap κ α) (value : α) (key : κ) : Prop :=
  Recorded m key value ∧ ∀ key', Recorded m key' value → key ≤ key'

/-- What `std::map` and `push_back` keep: ascending keys, no empty vector. -/
structure Ordered (m : OrderedMultimap κ α) : Prop where
  ascending : m.Pairwise fun a b => a.1 < b.1
  nonempty : ∀ entry ∈ m, entry.2 ≠ []

theorem recorded_pushBack {m : OrderedMultimap κ α} {key key' : κ} {value value' : α} :
    Recorded (pushBack key value m) key' value' ↔
      (key' = key ∧ value' = value) ∨ Recorded m key' value' := by
  induction m with
  | nil => simp [pushBack, recorded_cons]
  | cons entry rest ih =>
      obtain ⟨k, vs⟩ := entry
      rw [pushBack]
      split
      · simp [recorded_cons]
      · split
        · rename_i same
          subst same
          simp only [recorded_cons, List.mem_append, List.mem_singleton]
          tauto
        · rw [recorded_cons, ih, recorded_cons]
          tauto

theorem ordered_nil : Ordered ([] : OrderedMultimap κ α) :=
  ⟨List.Pairwise.nil, fun _ member => nomatch member⟩

/-- The keys after a push: the pushed one and those from before. -/
theorem key_mem_pushBack {m : OrderedMultimap κ α} {key : κ} {value : α} :
    ∀ entry ∈ pushBack key value m, entry.1 = key ∨ ∃ old ∈ m, old.1 = entry.1 := by
  induction m with
  | nil => simp [pushBack]
  | cons head rest ih =>
      obtain ⟨k, vs⟩ := head
      intro entry member
      rw [pushBack] at member
      split at member
      · rcases List.mem_cons.1 member with rfl | old
        · exact Or.inl rfl
        · exact Or.inr ⟨entry, old, rfl⟩
      · split at member
        · rename_i same
          rcases List.mem_cons.1 member with rfl | old
          · exact Or.inl same.symm
          · exact Or.inr ⟨entry, List.mem_cons_of_mem _ old, rfl⟩
        · rcases List.mem_cons.1 member with rfl | later
          · exact Or.inr ⟨(k, vs), List.mem_cons_self, rfl⟩
          · exact (ih entry later).imp_right fun ⟨old, at_, same⟩ =>
              ⟨old, List.mem_cons_of_mem _ at_, same⟩

theorem Ordered.pushBack {m : OrderedMultimap κ α} (ordered : Ordered m) (key : κ) (value : α) :
    Ordered (pushBack key value m) := by
  induction m with
  | nil => exact ⟨List.pairwise_singleton _ _, by simp [OrderedMultimap.pushBack]⟩
  | cons head rest ih =>
      obtain ⟨k, vs⟩ := head
      obtain ⟨below, ascending⟩ := List.pairwise_cons.1 ordered.ascending
      have nonempty := ordered.nonempty
      have tail : Ordered rest := ⟨ascending, fun entry at_ => nonempty entry (List.mem_cons_of_mem _ at_)⟩
      rw [OrderedMultimap.pushBack]
      split
      · rename_i less
        refine ⟨List.pairwise_cons.2 ⟨fun entry at_ => ?_, ordered.ascending⟩, ?_⟩
        · rcases List.mem_cons.1 at_ with rfl | later
          · exact less
          · exact less.trans (below entry later)
        · simpa using nonempty
      · split
        · exact ⟨List.pairwise_cons.2 ⟨below, ascending⟩, by simpa using fun entry => tail.nonempty entry⟩
        · rename_i notLess notSame
          refine ⟨List.pairwise_cons.2 ⟨fun entry at_ => ?_, (ih tail).ascending⟩, fun entry at_ => ?_⟩
          · rcases key_mem_pushBack entry at_ with same | ⟨old, at_, same⟩
            · rw [same]
              exact lt_of_le_of_ne (not_lt.1 notLess) fun h => notSame h.symm
            · rw [← same]
              exact below old at_
          · rcases List.mem_cons.1 at_ with rfl | later
            · exact nonempty _ List.mem_cons_self
            · exact (ih tail).nonempty entry later

/-- A value that is recorded has a smallest key. -/
theorem exists_least [WellFoundedLT κ] {m : OrderedMultimap κ α} {value : α}
    (recorded : ∃ key, Recorded m key value) : ∃ key, Least m value key :=
  let ⟨key, at_, least⟩ := WellFounded.has_min wellFounded_lt {key | Recorded m key value} recorded
  ⟨key, at_, fun key' at' => not_lt.1 (least key' at')⟩

/-- The value met first is recorded under the smallest key there is. -/
theorem least_head {m : OrderedMultimap κ α} (ordered : Ordered m) {first : α} {rest : List α}
    (head : values m = first :: rest) :
    ∃ key, Recorded m key first ∧ ∀ key' value, Recorded m key' value → key ≤ key' := by
  cases m with
  | nil => cases head
  | cons entry later =>
      obtain ⟨key, vs⟩ := entry
      cases vs with
      | nil => exact absurd rfl (ordered.nonempty _ List.mem_cons_self)
      | cons v vs =>
          cases head
          refine ⟨key, ⟨_, List.mem_cons_self, List.mem_cons_self⟩, ?_⟩
          rintro key' value ⟨values, member, -⟩
          rcases List.mem_cons.1 member with h | member
          · cases h; exact le_refl _
          · exact le_of_lt ((List.pairwise_cons.1 ordered.ascending).1 _ member)

/-- A value of smaller least key is met before the other one is met at all. -/
theorem Ordered.exists_split {a b : α} {key key' : κ} : ∀ {m : OrderedMultimap κ α}, Ordered m →
    Least m a key → Least m b key' → key < key' → ∃ l l', values m = l ++ l' ∧ a ∈ l ∧ b ∉ l
  | [], _, ⟨recorded, _⟩, _, _ => absurd recorded (not_recorded_nil key a)
  | (k, vs) :: rest, ordered, ⟨recorded, least⟩, ⟨recorded', least'⟩, less => by
      obtain ⟨below, ascending⟩ := List.pairwise_cons.1 ordered.ascending
      have above : ∀ k', ∀ v, Recorded rest k' v → k < k' :=
        fun k' v ⟨vs', member, _⟩ => below (k', vs') member
      -- the first vector holds `a` at most
      have first : k ≤ key := by
        rcases recorded_cons.1 recorded with ⟨same, -⟩ | later
        · exact le_of_eq same.symm
        · exact (above key a later).le
      have without : b ∉ vs := fun member =>
        absurd (least' k (recorded_cons.2 (Or.inl ⟨rfl, member⟩))) (not_le.2 (lt_of_le_of_lt first less))
      by_cases here : a ∈ vs
      · exact ⟨vs, values rest, rfl, here, without⟩
      · have tail : Ordered rest :=
          ⟨ascending, fun entry at_ => ordered.nonempty entry (List.mem_cons_of_mem _ at_)⟩
        have leastTail : Least rest a key :=
          ⟨(recorded_cons.1 recorded).resolve_left fun h => here h.2,
            fun k' at_ => least k' (recorded_cons.2 (Or.inr at_))⟩
        have leastTail' : Least rest b key' :=
          ⟨(recorded_cons.1 recorded').resolve_left fun h => without h.2,
            fun k' at_ => least' k' (recorded_cons.2 (Or.inr at_))⟩
        obtain ⟨l, l', split, member, notMember⟩ := tail.exists_split leastTail leastTail' less
        refine ⟨vs ++ l, l', ?_, List.mem_append.2 (Or.inr member), ?_⟩
        · rw [List.append_assoc, ← split]
          rfl
        · rw [List.mem_append, not_or]
          exact ⟨without, notMember⟩

end OrderedMultimap

end PreemptiveExecutor.Theory
