import Mathlib.Algebra.Order.Group.Defs
import Mathlib.Data.Nat.Find
import Mathlib.Order.Monotone.Basic
import Mathlib.Tactic.Abel

/-! # Sampling a point in time

Instants come one after another, at most a period apart. A **hit** of a point in time is an instant
that is strictly before it, by less than a period. Two hits in a row are possible where the instants
come closer together, and none where one instant is exactly a period before the point and the next
one is on it. Everywhere else the point is hit once. -/

namespace LogosFs

variable {Time : Type*} [AddCommGroup Time] [LinearOrder Time] [IsOrderedAddMonoid Time]

/-- Instants in order, at most a period apart, without end. -/
structure Sampling (period : Time) (instants : ℕ → Time) : Prop where
  /-- The instants are in order. -/
  mono : Monotone instants
  /-- Every point in time is passed. -/
  unbounded : ∀ point, ∃ i, point ≤ instants i
  /-- The next instant comes within a period. -/
  gap : ∀ i, instants (i + 1) ≤ instants i + period

/-- An instant hits a point in time: it is before it, by less than a period. -/
def Hits (period instant point : Time) : Prop := point - period < instant ∧ instant < point

namespace Sampling

variable {period point : Time} {instants : ℕ → Time}

omit [IsOrderedAddMonoid Time] in
/-- A point after the first instant of a `Sampling` has a last instant before it. -/
theorem exists_last_before (h : Sampling period instants) (hpoint : instants 0 < point) :
    ∃ i, instants i < point ∧ point ≤ instants (i + 1) := by
  classical
  have hpassed := h.unbounded point
  obtain ⟨i, hi⟩ : ∃ i, Nat.find hpassed = i + 1 := by
    refine Nat.exists_eq_add_one_of_ne_zero fun hzero => ?_
    exact absurd (hzero ▸ Nat.find_spec hpassed) (not_le.mpr hpoint)
  refine ⟨i, not_le.mp (Nat.find_min hpassed (by omega)), ?_⟩
  exact hi ▸ Nat.find_spec hpassed

/-- **When a point is hit once**: no two instants in a row `Hits` it, and it is not on an instant
that comes a whole period after the one before. -/
theorem existsUnique_hits_iff (h : Sampling period instants) (hpoint : instants 0 < point) :
    (∃! i, Hits period (instants i) point) ↔
      (∀ i, ¬(Hits period (instants i) point ∧ Hits period (instants (i + 1)) point)) ∧
        ∀ i, ¬(instants i = point - period ∧ instants (i + 1) = point) := by
  constructor
  · rintro ⟨hit, hhit, hunique⟩
    refine ⟨fun i hboth => ?_, fun i hon => ?_⟩
    · have hsame : i = i + 1 := (hunique i hboth.1).trans (hunique (i + 1) hboth.2).symm
      omega
    · -- the hit would have to be between two instants in a row
      rcases Nat.lt_or_ge i hit with hlt | hle
      · have hafter : instants (i + 1) ≤ instants hit := h.mono hlt
        rw [hon.2] at hafter
        exact absurd hhit.2 hafter.not_gt
      · have hbefore : instants hit ≤ instants i := h.mono hle
        rw [hon.1] at hbefore
        exact absurd hhit.1 hbefore.not_gt
  · rintro ⟨hrow, hon⟩
    -- The last instant before the point is the one that hits it.
    obtain ⟨last, hlast, hnext⟩ := h.exists_last_before hpoint
    have hnear : point - period ≤ instants last := by
      rw [sub_le_iff_le_add]
      exact hnext.trans (h.gap last)
    have hhit : Hits period (instants last) point := by
      refine ⟨hnear.lt_of_ne fun heq => hon last ⟨heq.symm, hnext.antisymm' ?_⟩, hlast⟩
      have := h.gap last
      rwa [← heq, sub_add_cancel] at this
    refine ⟨last, hhit, fun i hi => ?_⟩
    rcases Nat.lt_trichotomy i last with hlt | heq | hgt
    · -- then the instant behind `i` hits the point as well
      have hsucc : instants (i + 1) ≤ instants last := h.mono hlt
      have hboth : Hits period (instants (i + 1)) point :=
        ⟨hi.1.trans_le (h.mono (Nat.le_succ i)), hsucc.trans_lt hlast⟩
      exact absurd ⟨hi, hboth⟩ (hrow i)
    · exact heq
    · exact absurd hi.2 ((hnext.trans (h.mono hgt)).not_gt)

end Sampling

end LogosFs
