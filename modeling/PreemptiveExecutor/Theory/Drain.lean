/-
# Theory.Drain — scanning items against a set that is used up

A set of wanted keys is matched against a list of items: an item whose key is
still wanted is found, and its key is no longer wanted.  If different items have
different keys, the scan finds each wanted item once, however often the list
repeats it and in whatever order (`foldl_offer`).
-/
import Mathlib.Data.Finset.Erase
import Mathlib.Data.List.Induction

namespace PreemptiveExecutor.Theory

set_option autoImplicit false

structure Drain (κ α : Type) where
  wanted : Finset κ
  found : List α := []

namespace Drain

variable {κ α : Type} [DecidableEq κ]

def offer (key : α → κ) (d : Drain κ α) (item : α) : Drain κ α :=
  if key item ∈ d.wanted then { wanted := d.wanted.erase (key item), found := d.found ++ [item] }
  else d

/-- The scan of `seen` against `wanted` has come to `d`. -/
structure Scanned (key : α → κ) (wanted : Finset κ) (seen : List α) (d : Drain κ α) : Prop where
  nodup : d.found.Nodup
  found_iff : ∀ item, item ∈ d.found ↔ item ∈ seen ∧ key item ∈ wanted
  wanted_iff : ∀ k, k ∈ d.wanted ↔ k ∈ wanted ∧ ∀ item ∈ seen, key item ≠ k

variable {key : α → κ} {wanted : Finset κ} {seen : List α} {d : Drain κ α}

theorem Scanned.offer (scanned : Scanned key wanted seen d) {item : α}
    (distinct : ∀ other ∈ seen, key other = key item → other = item) :
    Scanned key wanted (seen ++ [item]) (d.offer key item) := by
  unfold Drain.offer
  by_cases still : key item ∈ d.wanted
  · obtain ⟨inWanted, unseen⟩ := (scanned.wanted_iff _).1 still
    rw [if_pos still]
    refine ⟨?_, fun other => ?_, fun k => ?_⟩
    · refine List.nodup_append.2 ⟨scanned.nodup, List.nodup_singleton _, ?_⟩
      intro other member item' here same
      obtain rfl := List.mem_singleton.1 here
      exact unseen other ((scanned.found_iff other).1 member).1 (by rw [same])
    · rw [List.mem_append, List.mem_append, List.mem_singleton, scanned.found_iff]
      constructor
      · rintro (⟨member, key_⟩ | rfl)
        · exact ⟨Or.inl member, key_⟩
        · exact ⟨Or.inr rfl, inWanted⟩
      · rintro ⟨member | rfl, key_⟩
        · exact Or.inl ⟨member, key_⟩
        · exact Or.inr rfl
    · rw [Finset.mem_erase, scanned.wanted_iff]
      constructor
      · rintro ⟨differ, want, others⟩
        refine ⟨want, fun other member => ?_⟩
        rcases List.mem_append.1 member with before | here
        · exact others other before
        · obtain rfl := List.mem_singleton.1 here
          exact fun same => differ same.symm
      · rintro ⟨want, others⟩
        exact ⟨fun same => others item (by simp) same.symm, want,
          fun other member => others other (List.mem_append_left _ member)⟩
  · rw [if_neg still]
    -- a wanted key that is gone was taken by the item itself
    have before : key item ∈ wanted → item ∈ seen := by
      intro want
      by_contra unseen
      refine still ((scanned.wanted_iff _).2 ⟨want, fun other member same => unseen ?_⟩)
      exact distinct other member same ▸ member
    refine ⟨scanned.nodup, fun other => ?_, fun k => ?_⟩
    · rw [scanned.found_iff, List.mem_append, List.mem_singleton]
      constructor
      · rintro ⟨member, want⟩
        exact ⟨Or.inl member, want⟩
      · rintro ⟨member | rfl, want⟩
        · exact ⟨member, want⟩
        · exact ⟨before want, want⟩
    · rw [scanned.wanted_iff]
      constructor
      · rintro ⟨want, others⟩
        refine ⟨want, fun other member => ?_⟩
        rcases List.mem_append.1 member with earlier | here
        · exact others other earlier
        · obtain rfl := List.mem_singleton.1 here
          rintro rfl
          exact others other (before want) rfl
      · rintro ⟨want, others⟩
        exact ⟨want, fun other member => others other (List.mem_append_left _ member)⟩

/-- **A scan finds each wanted item once.** -/
theorem foldl_offer (key : α → κ) (wanted : Finset κ) (items : List α)
    (distinct : ∀ item ∈ items, ∀ other ∈ items, key other = key item → other = item) :
    Scanned key wanted items (items.foldl (offer key) { wanted }) := by
  induction items using List.reverseRecOn with
  | nil => exact ⟨List.nodup_nil, fun item => by simp, fun k => by simp⟩
  | append_singleton items item ih =>
      rw [List.foldl_append]
      refine (ih fun a inItems b inItems' => ?_).offer fun other member => ?_
      · exact distinct a (List.mem_append_left _ inItems) b (List.mem_append_left _ inItems')
      · exact distinct item (by simp) other (List.mem_append_left _ member)

end Drain

end PreemptiveExecutor.Theory
