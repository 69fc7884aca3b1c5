import Mathlib.Algebra.Order.Field.Rat
import Mathlib.Data.Rat.Floor

/-!
# Numbers of numpy

A float is a number, an infinity or not a number. Numbers are reckoned with exactly here: the rounding of floats is
left out, and so is the sign of zero.
-/

namespace FreeSwarm.Foundation

inductive NpFloat where
  | nan
  | inf (above : Bool)
  | fin (x : ℚ)
deriving DecidableEq

/-- `int`, of a number. -/
def intOf (x : ℚ) : Int := if 0 ≤ x then ⌊x⌋ else ⌈x⌉

/-- The sign of a number. -/
def sgn (x : ℚ) : Int := if 0 < x then 1 else if x < 0 then -1 else 0

namespace NpFloat

def isFinite : NpFloat → Bool
  | .fin _ => true
  | _ => false

/-- `np.finfo(float).max`. -/
def largest : ℚ := (2 ^ 53 - 1) * 2 ^ 971

/-- `np.nan_to_num`, with what stands for no number. -/
def nanToNum (nan : ℚ) : NpFloat → ℚ
  | .nan => nan
  | .inf true => largest
  | .inf false => -largest
  | .fin x => x

/-- The sum. -/
def add : NpFloat → NpFloat → NpFloat
  | .fin x, .fin y => .fin (x + y)
  | .inf above, .fin _ => .inf above
  | .fin _, .inf above => .inf above
  | .inf above, .inf above' => if above = above' then .inf above else .nan
  | _, _ => .nan

/-- The negative. -/
def neg : NpFloat → NpFloat
  | .fin x => .fin (-x)
  | .inf above => .inf !above
  | .nan => .nan

variable (x y : NpFloat)

/-- The difference. -/
def sub : NpFloat := x.add y.neg

/-- The product. -/
def mul : NpFloat → NpFloat → NpFloat
  | .fin x, .fin y => .fin (x * y)
  | .inf above, .fin y => if y = 0 then .nan else .inf (above == decide (0 < y))
  | .fin x, .inf above => if x = 0 then .nan else .inf (above == decide (0 < x))
  | .inf above, .inf above' => .inf (above == above')
  | _, _ => .nan

/-- The quotient. -/
def div : NpFloat → NpFloat → NpFloat
  | .fin x, .fin y => if y = 0 then (if x = 0 then .nan else .inf (decide (0 < x))) else .fin (x / y)
  | .inf above, .fin y => .inf (above == decide (0 ≤ y))
  | .fin _, .inf _ => .fin 0
  | _, _ => .nan

def abs : NpFloat → NpFloat
  | .fin x => .fin |x|
  | .inf _ => .inf true
  | .nan => .nan

/-- `np.sign`, where no number has no sign. -/
def sign : NpFloat → Int
  | .fin x => sgn x
  | .inf above => if above then 1 else -1
  | .nan => 0

/-- `x < y`, which does not hold of what is not a number. -/
def lt : NpFloat → NpFloat → Bool
  | .fin x, .fin y => decide (x < y)
  | .fin _, .inf above => above
  | .inf above, .fin _ => !above
  | .inf above, .inf above' => !above && above'
  | _, _ => false

def maximum : NpFloat :=
  if x = .nan ∨ y = .nan then .nan else if x.lt y then y else x

def minimum : NpFloat :=
  if x = .nan ∨ y = .nan then .nan else if y.lt x then y else x

def sum (xs : List NpFloat) : NpFloat := xs.foldr add (.fin 0)

variable (x y : ℚ)

@[simp] theorem fin_sub : (fin x).sub (fin y) = fin (x - y) := by
  rw [sub, neg, add, sub_eq_add_neg]

@[simp] theorem fin_mul : (fin x).mul (fin y) = fin (x * y) := rfl

@[simp] theorem fin_abs : (fin x).abs = fin |x| := rfl

@[simp] theorem sum_fin (xs : List ℚ) : sum (xs.map fin) = fin xs.sum := by
  induction xs with
  | nil => rfl
  | cons x xs ih =>
    rw [List.map_cons, sum, List.foldr_cons, ← sum, ih, List.sum_cons]
    rfl

end NpFloat

/-! ## Signs -/

variable {x y : ℚ}

theorem sgn_eq_zero : sgn x = 0 ↔ x = 0 := by
  unfold sgn
  rcases lt_trichotomy x 0 with low | rfl | high
  · simp [low, low.ne, low.not_gt]
  · simp
  · simp [high, high.ne']

theorem sgn_of_pos (high : 0 < x) : sgn x = 1 := if_pos high

theorem sgn_of_neg (low : x < 0) : sgn x = -1 := by
  rw [sgn, if_neg low.not_gt, if_pos low]

theorem sgn_zero : sgn 0 = 0 := sgn_eq_zero.mpr rfl

/-- A number that is scaled up or down keeps its sign, unless it becomes zero. -/
theorem sgn_mul_of_pos (high : 0 < y) : sgn (x * y) = sgn x := by
  rcases lt_trichotomy x 0 with low | rfl | up
  · rw [sgn_of_neg low, sgn_of_neg (mul_neg_of_neg_of_pos low high)]
  · rw [zero_mul]
  · rw [sgn_of_pos up, sgn_of_pos (mul_pos up high)]

end FreeSwarm.Foundation
