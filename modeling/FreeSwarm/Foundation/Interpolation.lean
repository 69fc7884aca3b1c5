import Mathlib.Algebra.Order.Floor.Ring
import Mathlib.Data.Rat.Floor
import Mathlib.Tactic.Linarith
import Mathlib.Tactic.Ring

/-!
# Values between the levels of a grid

A dynamic program over levels bounds all moves, not only those between levels: a move is a mean of moves between
neighbouring levels, and a gain that is straight between levels is the same mean.
-/

namespace FreeSwarm.Foundation

/-- The values of levels, straight between them. -/
def interpolate (V : Int → ℚ) (x : ℚ) : ℚ := (1 - Int.fract x) * V ⌊x⌋ + Int.fract x * V (⌊x⌋ + 1)

@[simp]
theorem interpolate_intCast (V : Int → ℚ) (i : Int) : interpolate V i = V i := by simp [interpolate]

theorem scaled_le {w a b : ℚ} (nonneg : 0 ≤ w) (le : 0 < w → a ≤ b) : w * a ≤ w * b := by
  rcases nonneg.eq_or_lt with rfl | positive
  · simp
  · exact mul_le_mul_of_nonneg_left (le positive) nonneg

theorem interpolate_step {V V' : Int → ℚ} {gain : ℚ → ℚ} {x y : ℚ}
    (straight : ∀ (k : Int) (w : ℚ), 0 ≤ w → w ≤ 1 → gain (k + w) = (1 - w) * gain k + w * gain ((k + 1 : Int) : ℚ))
    (bound : ∀ i j : Int, |i - x| < 1 → |j - y| < 1 → |(j - i : Int) - (y - x)| < 1 →
      gain (j - i : Int) + V j ≤ V' i) :
    gain (y - x) + interpolate V y ≤ interpolate V' x := by
  have xParts := Int.floor_add_fract x
  have yParts := Int.floor_add_fract y
  have xLow := Int.fract_nonneg x
  have yLow := Int.fract_nonneg y
  have xHigh := Int.fract_lt_one x
  have yHigh := Int.fract_lt_one y
  unfold interpolate
  generalize ⌊x⌋ = m at *
  generalize ⌊y⌋ = n at *
  generalize Int.fract x = v at *
  generalize Int.fract y = w at *
  subst xParts yParts
  rcases le_total v w with le | le
  · have move := straight (n - m) (w - v) (by linarith) (by linarith)
    have low : (1 - w) * (gain (n - m : Int) + V n) ≤ (1 - w) * V' m :=
      scaled_le (by linarith) fun _ => bound m n (by rw [abs_lt]; constructor <;> linarith)
        (by rw [abs_lt]; constructor <;> linarith) (by push_cast; rw [abs_lt]; constructor <;> linarith)
    have high : v * (gain (n + 1 - (m + 1) : Int) + V (n + 1)) ≤ v * V' (m + 1) :=
      scaled_le xLow fun _ => bound (m + 1) (n + 1) (by push_cast; rw [abs_lt]; constructor <;> linarith)
        (by push_cast; rw [abs_lt]; constructor <;> linarith) (by push_cast; rw [abs_lt]; constructor <;> linarith)
    have across : (w - v) * (gain (n + 1 - m : Int) + V (n + 1)) ≤ (w - v) * V' m :=
      scaled_le (by linarith) fun _ => bound m (n + 1) (by rw [abs_lt]; constructor <;> linarith)
        (by push_cast; rw [abs_lt]; constructor <;> linarith) (by push_cast; rw [abs_lt]; constructor <;> linarith)
    have same : (n : ℚ) + w - (m + v) = ((n - m : Int) : ℚ) + (w - v) := by push_cast; ring
    rw [show n + 1 - (m + 1) = n - m by ring] at high
    rw [show n + 1 - m = n - m + 1 by ring] at across
    rw [same, move]
    linarith
  · have move := straight (n - m - 1) (1 - (v - w)) (by linarith) (by linarith)
    have low : (1 - v) * (gain (n - m : Int) + V n) ≤ (1 - v) * V' m :=
      scaled_le (by linarith) fun _ => bound m n (by rw [abs_lt]; constructor <;> linarith)
        (by rw [abs_lt]; constructor <;> linarith) (by push_cast; rw [abs_lt]; constructor <;> linarith)
    have high : w * (gain (n + 1 - (m + 1) : Int) + V (n + 1)) ≤ w * V' (m + 1) :=
      scaled_le yLow fun _ => bound (m + 1) (n + 1) (by push_cast; rw [abs_lt]; constructor <;> linarith)
        (by push_cast; rw [abs_lt]; constructor <;> linarith) (by push_cast; rw [abs_lt]; constructor <;> linarith)
    have across : (v - w) * (gain (n - (m + 1) : Int) + V n) ≤ (v - w) * V' (m + 1) :=
      scaled_le (by linarith) fun _ => bound (m + 1) n (by push_cast; rw [abs_lt]; constructor <;> linarith)
        (by rw [abs_lt]; constructor <;> linarith) (by push_cast; rw [abs_lt]; constructor <;> linarith)
    have same : (n : ℚ) + w - (m + v) = ((n - m - 1 : Int) : ℚ) + (1 - (v - w)) := by push_cast; ring
    rw [show n + 1 - (m + 1) = n - m by ring] at high
    rw [show n - (m + 1) = n - m - 1 by ring] at across
    rw [same, move, show n - m - 1 + 1 = n - m by ring]
    linarith

end FreeSwarm.Foundation
