import Mathlib.Algebra.Order.Ring.Rat

/-!
# Doubles

A double is a number, an infinity or not a number. Arithmetic is exact and rounded afterwards. In the order of
a database, not a number comes after everything else.
-/

namespace FreeSwarm.Foundation

inductive Double where
  | nan
  | negInf
  | posInf
  | finite (q : ℚ)
  deriving DecidableEq

namespace Double

/-- How exact results are rounded. -/
structure Rounding where
  round : ℚ → Double
  zero : round 0 = finite 0
  nonneg : ∀ q, 0 ≤ q → round q = posInf ∨ ∃ r, 0 ≤ r ∧ round q = finite r

def Rounding.exact : Rounding where
  round := finite
  zero := rfl
  nonneg q sign := .inr ⟨q, sign, rfl⟩

variable (r : Rounding)

def neg : Double → Double
  | nan => nan
  | negInf => posInf
  | posInf => negInf
  | finite q => finite (-q)

def abs : Double → Double
  | nan => nan
  | negInf => posInf
  | posInf => posInf
  | finite q => finite |q|

def add : Double → Double → Double
  | nan, _ | _, nan | negInf, posInf | posInf, negInf => nan
  | negInf, _ | _, negInf => negInf
  | posInf, _ | _, posInf => posInf
  | finite q, finite q' => r.round (q + q')

def sub (x y : Double) : Double := add r x (neg y)

/-- A double taken a positive number of times. -/
def scale (factor : ℚ) : Double → Double
  | nan => nan
  | negInf => negInf
  | posInf => posInf
  | finite q => r.round (factor * q)

/-- The order of a database. -/
def lt : Double → Double → Bool
  | nan, _ => false
  | _, nan => true
  | posInf, _ => false
  | _, posInf => true
  | _, negInf => false
  | negInf, _ => true
  | finite q, finite q' => q < q'

variable {r}

theorem sub_self (q : ℚ) : sub r (finite q) (finite q) = finite 0 := by
  unfold sub neg add
  simp only [add_neg_cancel, r.zero]

theorem not_lt_zero {x : Double} (sign : x = posInf ∨ ∃ q, 0 ≤ q ∧ x = finite q) :
    lt x (finite 0) = false := by
  obtain rfl | ⟨q, sign, rfl⟩ := sign
  · rfl
  · exact decide_eq_false (not_lt.mpr sign)

end Double

end FreeSwarm.Foundation
