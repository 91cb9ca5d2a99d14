import Mathlib.Algebra.Order.Ring.Int
import Mathlib.Tactic.Linarith

/-!
# `Lib.HalfPeriod` — reading the sign of a distance off a cyclic counter

A counter of period `2 * h` shows a distance `x` to a target only modulo its period. `Behind h x` is the
usual reading of it: the target lies ahead when the visible distance falls in the upper half. For
distances less than half a period away this is the sign; a polling loop that takes samples at most half a
period apart recognises the target by the step from `Behind` to not `Behind`.

`edge_iff` says which step that is: as long as no sample has reached the target, the next sample shows
the edge exactly if it has reached it.
-/

namespace Lib.HalfPeriod

variable {h x y : Int}

/-- The visible distance `x % (2 * h)` lies in the upper half of the period. -/
def Behind (h x : Int) : Prop := h ≤ x % (2 * h)

instance : Decidable (Behind h x) := inferInstanceAs (Decidable (h ≤ x % (2 * h)))

theorem Behind.congr (hxy : x % (2 * h) = y % (2 * h)) : Behind h x ↔ Behind h y := by
  unfold Behind
  rw [hxy]

/-- Less than a period before the target, the nearer half is the one read as behind. -/
theorem behind_of_neg (hlo : -(2 * h) ≤ x) (hneg : x < 0) : Behind h x ↔ -h ≤ x := by
  unfold Behind
  have hmod : x % (2 * h) = x + 2 * h := by
    rw [← Int.add_emod_right]
    exact Int.emod_eq_of_lt (by linarith) (by linarith)
  rw [hmod]
  constructor
  · intro hle
    linarith
  · intro hle
    linarith

/-- Less than half a period past the target is not behind it. -/
theorem not_behind_of_nonneg (hnn : 0 ≤ x) (hlt : x < h) : ¬ Behind h x := by
  unfold Behind
  rw [Int.emod_eq_of_lt hnn (by linarith)]
  exact not_le.mpr hlt

/-- **The edge.** From a sample less than a period before the target, the next sample, at most half a
    period later, shows the step out of `Behind` if and only if it has reached the target. -/
theorem edge_iff (hlo : -(2 * h) ≤ x) (hneg : x < 0) (hxy : x ≤ y) (hgap : y ≤ x + h) :
    (Behind h x ∧ ¬ Behind h y) ↔ 0 ≤ y := by
  constructor
  · rintro ⟨hx, hy⟩
    by_contra hyneg
    have hle := (behind_of_neg hlo hneg).mp hx
    exact hy ((behind_of_neg (by linarith) (not_le.mp hyneg)).mpr (by linarith))
  · intro hnn
    constructor
    · exact (behind_of_neg hlo hneg).mpr (by linarith)
    · exact not_behind_of_nonneg hnn (by linarith)

end Lib.HalfPeriod
