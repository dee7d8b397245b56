/-
# Theory.UnorderedMap — unordered containers as association lists

A `std::unordered_map` is an association list without repeated keys: the list
order stands for the iteration order, which the language leaves open.  The map
operations below are the three the code uses: `subscript` (`operator[]` read),
`update` (`operator[]` followed by a write through the reference) and `emplace`.

`SameEntries R a b` says that two maps have the same keys with `R`-related
values, in whatever order; a statement "for every iteration order" quantifies
over the maps that are `SameEntries` to a given one.
-/
import Mathlib.Data.List.AList
import Mathlib.Data.Option.Basic

namespace PreemptiveExecutor.Theory

set_option autoImplicit false

abbrev UnorderedMap (κ α : Type) := AList fun _ : κ => α

namespace UnorderedMap

variable {κ α β : Type} [DecidableEq κ]

section Subscript

variable [Inhabited α]

/-- `m[k]`, read: a missing key reads as the default value. -/
def subscript (m : UnorderedMap κ α) (k : κ) : α := (m.lookup k).getD default

/-- `f(m[k])`: a missing key is created with the default value first. -/
def update (m : UnorderedMap κ α) (k : κ) (f : α → α) : UnorderedMap κ α :=
  m.insert k (f (subscript m k))

end Subscript

/-- `m.emplace(k, v)`: keeps the value of a key that is already present. -/
def emplace (m : UnorderedMap κ α) (k : κ) (v : α) : UnorderedMap κ α :=
  if k ∈ m then m else m.insert k v

theorem lookup_insert_eq (m : UnorderedMap κ α) (k k' : κ) (v : α) :
    (m.insert k v).lookup k' = if k' = k then some v else m.lookup k' := by
  split
  · rename_i h; subst h; exact AList.lookup_insert m
  · rename_i h; exact AList.lookup_insert_ne h

theorem lookup_emplace (m : UnorderedMap κ α) (k k' : κ) (v : α) :
    (emplace m k v).lookup k' = if k' = k ∧ m.lookup k = none then some v else m.lookup k' := by
  unfold emplace
  split
  · rename_i present
    have : m.lookup k ≠ none := fun h => (AList.lookup_eq_none.1 h) present
    simp [this]
  · rename_i absent
    rw [lookup_insert_eq, AList.lookup_eq_none.2 absent]
    simp

theorem mem_iff_lookup {m : UnorderedMap κ α} {k : κ} : k ∈ m ↔ ∃ v, m.lookup k = some v := by
  rw [← AList.lookup_isSome, Option.isSome_iff_exists]

theorem mem_entries_iff {m : UnorderedMap κ α} {k : κ} {v : α} :
    (⟨k, v⟩ : Sigma fun _ : κ => α) ∈ m.entries ↔ m.lookup k = some v :=
  (AList.mem_lookup_iff (s := m)).symm

section Subscript

variable [Inhabited α]

theorem lookup_update (m : UnorderedMap κ α) (k k' : κ) (f : α → α) :
    (update m k f).lookup k' = if k' = k then some (f (subscript m k)) else m.lookup k' :=
  lookup_insert_eq m k k' _

theorem subscript_of_lookup {m : UnorderedMap κ α} {k : κ} {v : α} (h : m.lookup k = some v) :
    subscript m k = v := by
  simp [subscript, h]

@[simp] theorem subscript_insert (m : UnorderedMap κ α) (k k' : κ) (v : α) :
    subscript (m.insert k v) k' = if k' = k then v else subscript m k' := by
  unfold subscript
  rw [lookup_insert_eq]
  split <;> rfl

@[simp] theorem subscript_update (m : UnorderedMap κ α) (k k' : κ) (f : α → α) :
    subscript (update m k f) k' = if k' = k then f (subscript m k) else subscript m k' :=
  subscript_insert m k k' _

@[simp] theorem mem_update (m : UnorderedMap κ α) (k k' : κ) (f : α → α) :
    k' ∈ update m k f ↔ k' = k ∨ k' ∈ m :=
  AList.mem_insert m

end Subscript

/-! ## Maps filled by a loop -/

section Loop

variable {ι : Type} {key : ι → κ} {value : ι → α}

/-- The entry `emplace` puts in first is the one that stays. -/
theorem lookup_foldl_emplace (key : ι → κ) (value : ι → α) (items : List ι) :
    ∀ (m : UnorderedMap κ α) (k : κ),
      (items.foldl (fun m item => emplace m (key item) (value item)) m).lookup k =
        (m.lookup k).or ((items.find? fun item => key item = k).map value) := by
  induction items with
  | nil => intro m k; simp
  | cons item items ih =>
      intro m k
      rw [List.foldl_cons, ih, lookup_emplace, List.find?_cons]
      by_cases same : key item = k
      · subst same
        cases m.lookup (key item) <;> simp
      · have other : ¬ (k = key item ∧ m.lookup (key item) = none) := fun h => same h.1.symm
        simp [same, other]

/-- A map whose values carry their key, copied entry by entry. -/
theorem lookup_emplace_entries (m : UnorderedMap κ β) (key : β → κ) (value : β → α)
    (own : ∀ k v, m.lookup k = some v → key v = k) (k : κ) :
    (m.entries.foldl (fun copy entry => emplace copy (key entry.2) (value entry.2))
        (∅ : UnorderedMap κ α)).lookup k = (m.lookup k).map value := by
  rw [lookup_foldl_emplace (fun entry => key entry.2) (fun entry => value entry.2) m.entries,
    AList.lookup_empty, Option.none_or]
  cases at_ : m.entries.find? fun entry => key entry.2 = k with
  | none =>
      cases found : m.lookup k with
      | none => rfl
      | some v =>
          have other := List.find?_eq_none.1 at_ ⟨k, v⟩ (mem_entries_iff.2 found)
          simp [own k v found] at other
  | some entry =>
      have same : key entry.2 = k := by simpa using List.find?_some at_
      have found := mem_entries_iff.1 (List.mem_of_find?_eq_some at_)
      rw [← own _ _ found, same] at found
      rw [found]
      rfl

/-- The entry assigned last is the one that stays. -/
theorem lookup_foldl_assign (key : ι → κ) (value : ι → α) (items : List ι) :
    ∀ (m : UnorderedMap κ α) (k : κ),
      (items.foldl (fun m item => m.insert (key item) (value item)) m).lookup k =
        ((items.reverse.find? fun item => key item = k).map value).or (m.lookup k) := by
  induction items with
  | nil => intro m k; simp
  | cons item items ih =>
      intro m k
      rw [List.foldl_cons, ih, lookup_insert_eq, List.reverse_cons, List.find?_append, Option.map_or,
        Option.or_assoc]
      by_cases same : key item = k
      · subst same
        simp
      · have other : ¬ k = key item := fun h => same h.symm
        simp [same, other]

/-- Where items with one key carry one value, assignment in a loop maps each key
to that value. -/
theorem lookup_foldl_insert (items : List ι) :
    ∀ (m : UnorderedMap κ α) (k : κ) (v : α),
      (∀ i ∈ items, ∀ j ∈ items, key i = key j → value i = value j) →
      ((items.foldl (fun m item => m.insert (key item) (value item)) m).lookup k = some v ↔
        (∃ item ∈ items, key item = k ∧ value item = v) ∨
          ((∀ item ∈ items, key item ≠ k) ∧ m.lookup k = some v)) := by
  induction items with
  | nil => intro m k v _; simp
  | cons item items ih =>
      intro m k v agree
      have agree' : ∀ i ∈ items, ∀ j ∈ items, key i = key j → value i = value j := fun i hi j hj =>
        agree i (List.mem_cons_of_mem _ hi) j (List.mem_cons_of_mem _ hj)
      have here : ∀ j ∈ items, key item = key j → value item = value j := fun j hj =>
        agree item List.mem_cons_self j (List.mem_cons_of_mem _ hj)
      rw [List.foldl_cons, ih _ k v agree', lookup_insert_eq, List.exists_mem_cons_iff,
        List.forall_mem_cons]
      constructor
      · rintro (⟨j, hj, same, val⟩ | ⟨fresh, found⟩)
        · exact Or.inl (Or.inr ⟨j, hj, same, val⟩)
        · split at found
          · rename_i same
            exact Or.inl (Or.inl ⟨same.symm, by simpa using found⟩)
          · rename_i other
            exact Or.inr ⟨⟨fun h => other h.symm, fresh⟩, found⟩
      · rintro ((⟨same, val⟩ | later) | ⟨⟨other, fresh⟩, found⟩)
        · by_cases again : ∃ j ∈ items, key j = k
          · obtain ⟨j, hj, sameJ⟩ := again
            exact Or.inl ⟨j, hj, sameJ, by rw [← here j hj (by rw [same, sameJ]), val]⟩
          · refine Or.inr ⟨fun j hj h => again ⟨j, hj, h⟩, ?_⟩
            rw [if_pos same.symm, val]
        · exact Or.inl later
        · exact Or.inr ⟨fresh, by rw [if_neg fun h => other h.symm]; exact found⟩

end Loop

/-! ## Maps of lists, one key after the other -/

section Segments

/-- What the pairs of a key hold, in a list of pairs. -/
def segment (entries : List (Sigma fun _ : κ => List α)) (k : κ) : List α :=
  entries.flatMap fun entry => if entry.1 = k then entry.2 else []

theorem segment_cons (entry : Sigma fun _ : κ => List α) (entries : List (Sigma fun _ : κ => List α))
    (k : κ) : segment (entry :: entries) k = (if entry.1 = k then entry.2 else []) ++ segment entries k := rfl

theorem segment_of_not_mem {entries : List (Sigma fun _ : κ => List α)} {k : κ} (absent : k ∉ entries.keys) :
    segment entries k = [] := by
  refine List.flatMap_eq_nil_iff.2 fun entry member => ?_
  rw [if_neg]
  rintro rfl
  exact absent (List.mem_keys_of_mem member)

/-- Without repeated keys, a key's segment is its one value. -/
theorem segment_of_mem {entries : List (Sigma fun _ : κ => List α)} (distinct : entries.NodupKeys) {k : κ}
    {v : List α} (member : ⟨k, v⟩ ∈ entries) : segment entries k = v := by
  induction entries with
  | nil => cases member
  | cons entry entries ih =>
      obtain ⟨fresh, distinct⟩ := List.nodupKeys_cons.1 distinct
      rw [segment_cons]
      rcases List.mem_cons.1 member with rfl | later
      · rw [if_pos rfl, segment_of_not_mem fresh, List.append_nil]
      · have other : entry.1 ≠ k := by
          rintro rfl
          exact fresh (List.mem_keys.2 ⟨v, later⟩)
        rw [if_neg other, List.nil_append]
        exact ih distinct later

/-- The segments of the first entries of a map: the whole value of each of their
keys. -/
theorem segment_first (m : UnorderedMap κ (List α)) {first rest : List (Sigma fun _ : κ => List α)}
    (split_ : m.entries = first ++ rest) (k : κ) :
    segment first k = if k ∈ first.keys then subscript m k else [] := by
  by_cases present : k ∈ first.keys
  · rw [if_pos present]
    obtain ⟨v, member⟩ := List.exists_of_mem_keys present
    have distinct : first.NodupKeys :=
      m.nodupKeys.sublist (split_ ▸ List.sublist_append_left first rest)
    rw [segment_of_mem distinct member]
    exact (subscript_of_lookup (mem_entries_iff.1 (split_ ▸ List.mem_append_left rest member))).symm
  · rw [if_neg present, segment_of_not_mem present]

theorem segment_entries (m : UnorderedMap κ (List α)) (k : κ) : segment m.entries k = subscript m k := by
  by_cases present : k ∈ m.entries.keys
  · rw [segment_first m (List.append_nil _).symm, if_pos present]
  · have absent : m.lookup k = none := AList.lookup_eq_none.2 present
    rw [segment_of_not_mem present, subscript, absent]
    rfl

end Segments

/-! ## Iteration order -/

/-- The same keys, with related values; the orders of the entries are free. -/
def SameEntries (R : α → β → Prop) (a : UnorderedMap κ α) (b : UnorderedMap κ β) : Prop :=
  ∀ k, Option.Rel R (a.lookup k) (b.lookup k)

namespace SameEntries

variable {R : α → β → Prop} {a : UnorderedMap κ α} {b : UnorderedMap κ β}

theorem lookup_right (same : SameEntries R a b) {k : κ} {v : α} (h : a.lookup k = some v) :
    ∃ w, b.lookup k = some w ∧ R v w := by
  have := same k
  rw [h] at this
  cases hb : b.lookup k with
  | none => rw [hb] at this; cases this
  | some w => rw [hb] at this; cases this with | some r => exact ⟨w, rfl, r⟩

theorem lookup_left (same : SameEntries R a b) {k : κ} {w : β} (h : b.lookup k = some w) :
    ∃ v, a.lookup k = some v ∧ R v w := by
  have := same k
  rw [h] at this
  cases ha : a.lookup k with
  | none => rw [ha] at this; cases this
  | some v => rw [ha] at this; cases this with | some r => exact ⟨v, rfl, r⟩

theorem mem_iff (same : SameEntries R a b) (k : κ) : k ∈ a ↔ k ∈ b := by
  rw [mem_iff_lookup, mem_iff_lookup]
  constructor
  · rintro ⟨v, h⟩; obtain ⟨w, hw, -⟩ := same.lookup_right h; exact ⟨w, hw⟩
  · rintro ⟨w, h⟩; obtain ⟨v, hv, -⟩ := same.lookup_left h; exact ⟨v, hv⟩

theorem lookup_none (same : SameEntries R a b) {k : κ} : a.lookup k = none ↔ b.lookup k = none := by
  rw [AList.lookup_eq_none, AList.lookup_eq_none, same.mem_iff]

theorem lookup_eq {a b : UnorderedMap κ α} (same : SameEntries (fun v w => v = w) a b) (k : κ) :
    a.lookup k = b.lookup k := by
  cases found : b.lookup k with
  | none => exact same.lookup_none.2 found
  | some w =>
      obtain ⟨v, found', rfl⟩ := same.lookup_left found
      exact found'

/-- Reads are related too, if the values a missing key reads as are. -/
theorem subscript [Inhabited α] [Inhabited β] (same : SameEntries R a b) (missing : R default default) (k : κ) :
    R (UnorderedMap.subscript a k) (UnorderedMap.subscript b k) := by
  unfold UnorderedMap.subscript
  cases found : a.lookup k with
  | none =>
      rw [same.lookup_none.1 found]
      exact missing
  | some v =>
      obtain ⟨w, found', related⟩ := same.lookup_right found
      rw [found']
      exact related

/-- Only the empty map has the entries of the empty map. -/
theorem eq_empty {b : UnorderedMap κ β} (same : SameEntries R (∅ : UnorderedMap κ α) b) : b = ∅ := by
  refine AList.ext (List.eq_nil_iff_forall_not_mem.2 fun entry member => ?_)
  have found : b.lookup entry.1 = some entry.2 := mem_entries_iff.1 member
  obtain ⟨v, absent, -⟩ := same.lookup_left found
  cases absent

/-- From the two directions a lookup can be followed in. -/
theorem of_lookup (none : ∀ k, b.lookup k = none → a.lookup k = none)
    (some : ∀ k w, b.lookup k = some w → ∃ v, a.lookup k = some v ∧ R v w) : SameEntries R a b := by
  intro k
  cases hb : b.lookup k with
  | none => rw [none k hb]; exact .none
  | some w => obtain ⟨v, ha, r⟩ := some k w hb; rw [ha]; exact .some r

theorem imp {S : α → β → Prop} (same : SameEntries R a b) (weaker : ∀ v w, R v w → S v w) :
    SameEntries S a b :=
  of_lookup (fun _ => same.lookup_none.2) fun _ w found =>
    let ⟨v, found', r⟩ := same.lookup_left found
    ⟨v, found', weaker v w r⟩

theorem trans {γ : Type} {S : β → γ → Prop} {T : α → γ → Prop} {c : UnorderedMap κ γ}
    (first : SameEntries R a b) (second : SameEntries S b c)
    (compose : ∀ u v w, R u v → S v w → T u w) : SameEntries T a c :=
  of_lookup (fun _ absent => first.lookup_none.2 (second.lookup_none.2 absent)) fun _ w found =>
    let ⟨v, found', s⟩ := second.lookup_left found
    let ⟨u, found'', r⟩ := first.lookup_left found'
    ⟨u, found'', compose u v w r s⟩

end SameEntries

theorem sameEntries_refl {R : α → α → Prop} (refl : ∀ v, R v v) (a : UnorderedMap κ α) :
    SameEntries R a a := by
  intro k
  cases a.lookup k with
  | none => exact .none
  | some v => exact .some (refl v)

/-- Writing through the reference of an existing entry. -/
theorem sameEntries_update [Inhabited α] {R : α → α → Prop} (refl : ∀ v, R v v) {a : UnorderedMap κ α}
    {k : κ} (present : k ∈ a) {f : α → α} (related : ∀ v, a.lookup k = some v → R v (f v)) :
    SameEntries R a (update a k f) := by
  intro k'
  rw [lookup_update]
  split
  · rename_i same
    subst same
    obtain ⟨v, found⟩ := mem_iff_lookup.1 present
    rw [found, subscript_of_lookup found]
    exact .some (related v found)
  · cases a.lookup k' with
    | none => exact .none
    | some v => exact .some (refl v)

end UnorderedMap

end PreemptiveExecutor.Theory
