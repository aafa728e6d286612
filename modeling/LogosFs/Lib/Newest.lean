import Mathlib.Data.List.Nodup
import Mathlib.Data.List.Pairwise

/-! # The newest of some items

A query that sorts by a key, greatest first, and keeps a number of items shows the newest ones: whatever
it leaves out has a smaller key than everything that it shows. -/

namespace LogosFs

/-- `shown` are the items of `all` with the greatest keys, greatest first, up to a limit. -/
structure IsNewest {α : Type} (key : α → Int) (limit : Nat) (all shown : List α) : Prop where
  /-- The keys descend. -/
  descending : shown.Pairwise fun a b => key b < key a
  /-- Only these items are shown. -/
  mem : ∀ a ∈ shown, a ∈ all
  /-- As many as the limit allows are shown. -/
  length : shown.length = min limit all.length
  /-- An item that is not shown has a smaller key than those that are. -/
  newest : ∀ a ∈ all, a ∈ shown ∨ ∀ b ∈ shown, key a < key b

section

variable {α : Type} {key : α → Int} {all : List α}

/-- `mergeSort` of items with distinct keys puts them in strictly descending order. -/
theorem pairwise_mergeSort_desc (hnodup : (all.map key).Nodup) :
    (all.mergeSort fun a b => key b ≤ key a).Pairwise fun a b => key b < key a := by
  have hle : (all.mergeSort fun a b => key b ≤ key a).Pairwise fun a b => decide (key b ≤ key a) = true :=
    List.pairwise_mergeSort (fun a b c hab hbc => by simp only [decide_eq_true_iff] at *; omega)
      (fun a b => by simp only [Bool.or_eq_true, decide_eq_true_iff]; omega) all
  have hne : (all.mergeSort fun a b => key b ≤ key a).Pairwise fun a b => key a ≠ key b := by
    have hperm := ((List.mergeSort_perm all fun a b => key b ≤ key a).map key).nodup_iff.mpr hnodup
    exact List.pairwise_map.mp hperm
  refine (hle.and hne).imp fun {a b} h => ?_
  have hba := of_decide_eq_true h.1
  have hab := h.2
  omega

/-- **The first items**, after `mergeSort`, are the newest ones: `IsNewest`. -/
theorem isNewest_take_mergeSort (hnodup : (all.map key).Nodup) (limit : Nat) :
    IsNewest key limit all ((all.mergeSort fun a b => key b ≤ key a).take limit) := by
  have hsorted := pairwise_mergeSort_desc hnodup
  have hperm := List.mergeSort_perm all fun a b => decide (key b ≤ key a)
  refine ⟨hsorted.sublist (List.take_sublist _ _), fun a ha => hperm.mem_iff.mp (List.mem_of_mem_take ha),
    by rw [List.length_take, hperm.length_eq], fun a ha => ?_⟩
  -- An item is in the part that is shown, or in the rest, which comes after all of it.
  rw [← hperm.mem_iff, ← List.take_append_drop limit (all.mergeSort _), List.mem_append] at ha
  rcases ha with ha | ha
  · exact .inl ha
  · right
    intro b hb
    rw [← List.take_append_drop limit (all.mergeSort _), List.pairwise_append] at hsorted
    exact hsorted.2.2 b hb a ha

end

end LogosFs
