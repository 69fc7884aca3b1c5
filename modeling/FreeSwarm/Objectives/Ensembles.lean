import FreeSwarm.Foundation.Distinct
import Mathlib.Algebra.Order.BigOperators.Group.List
import Mathlib.Algebra.Order.Field.Basic
import Mathlib.Algebra.Order.Field.Rat
import Mathlib.Data.List.TakeWhile
import Mathlib.Tactic.FieldSimp
import Mathlib.Tactic.Ring

/-!
# Ensembles

An ensemble adds the daily returns of its members up, each with its weight of the day. The weights of a day are made
of the returns before it: members of little variance weigh more, once all of them have reported long enough.
-/

namespace FreeSwarm.Objectives.Ensembles

open FreeSwarm.Foundation

section Model

variable {Raw D V K : Type}

structure EnsembleEnv (Raw D V K : Type) where
  /-- `str(d)[:10]`. -/
  day : Raw → D
  zero : V
  /-- `std(axis=0, ddof=1)`, unless it is not finite. -/
  sigma : List V → Option K
  /-- `w * r`. -/
  weigh : K → V → V
  add : V → V → V

/-- The returns of a member: a date and a return. -/
abbrev Series (Raw V : Type) : Type := List (Raw × V)

inductive Weighting where
  /-- `"equal"`. -/
  | equal
  /-- `"inverse_vol"`. -/
  | inverseVol
deriving DecidableEq

variable (env : EnsembleEnv Raw D V K)

/-- `in_sample`: each series cut to the dates before the split, if there is one. -/
def inSample [LT D] [DecidableLT D] (series : List (Series Raw V)) (split : Option D) : List (Series Raw V) :=
  series.map fun s => s.filter fun entry => split.all fun split => env.day entry.1 < split

/-- `dates`: the days that any member reported, in order. -/
def ensembleDates [LinearOrder D] (series : List (Series Raw V)) : List D :=
  distinct (series.flatMap fun s => s.map fun entry => env.day entry.1)

/-- The returns that a member reported for a day. -/
def reportedOn [DecidableEq D] (s : Series Raw V) (d : D) : List V :=
  (s.filter fun entry => env.day entry.1 = d).map Prod.snd

/-- What `grid` says of a day: `R`, where a later report overwrites an earlier one, and `observed`. -/
structure GridRow (V : Type) where
  returns : List V
  observed : List Bool

/-- One day of `grid`. -/
def gridRow [DecidableEq D] (series : List (Series Raw V)) (d : D) : GridRow V :=
  { returns := series.map fun s => (reportedOn env s d).getLast?.getD env.zero
    observed := series.map fun s => !(reportedOn env s d).isEmpty }

/-- `grid`, day by day. -/
def grid [LinearOrder D] (series : List (Series Raw V)) : List (GridRow V) :=
  (ensembleDates env series).map (gridRow env series)

def minHistory (lookback : Int) : Int := max 5 (lookback / 2)

/-- `lo`: the first row of the window before a row. -/
def windowStart (lookback : Int) (t : Nat) : Int := max 0 ((t : Int) - lookback)

/-- `R[lo:t]` and `observed[lo:t]`. -/
def gridWindow (rows : List (GridRow V)) (lookback : Int) (t : Nat) : List (GridRow V) :=
  (rows.take t).drop (windowStart lookback t).toNat

def warmingUp (window : List (GridRow V)) (lookback : Int) (n t : Nat) : Bool :=
  decide ((t : Int) - windowStart lookback t < 2) ||
    (List.range n).any fun i =>
      decide (((window.countP fun row => row.observed.getD i false : Nat) : Int) < minHistory lookback)

/-- `sd`: the deviation of each member in the window. -/
def deviations (window : List (GridRow V)) (n : Nat) : List (Option K) :=
  (List.range n).map fun i => env.sigma (window.map fun row => row.returns.getD i env.zero)

variable [Field K] [LinearOrder K]

/-- `1.0 / n`. -/
def equalShare (n : Nat) : K := 1 / n

/-- `ok`: the deviation is defined and not zero. -/
def deviates (sd : Option K) : Bool := sd.any fun sd => 1 / 10 ^ 12 < sd

/-- `inv`. -/
def inverse (sd : Option K) : K := if deviates sd then 1 / sd.getD 1 else 0

/-- The weights of a day by inverse volatility: a member without a deviation keeps the equal share. -/
def inverseWeights (sds : List (Option K)) : List K :=
  let share := 1 - ((sds.length - sds.countP deviates : Nat) : K) / sds.length
  sds.map fun sd => if deviates sd then inverse sd / (sds.map inverse).sum * share else equalShare sds.length

/-- One row of `weights`. -/
def weightRow (rows : List (GridRow V)) (weighting : Weighting) (lookback : Int) (n t : Nat) : List K :=
  if weighting = .equal ∨ n = 0 then List.replicate n (equalShare n)
  else if warmingUp (gridWindow rows lookback t) lookback n t then List.replicate n (equalShare n)
  else if (deviations env (gridWindow rows lookback t) n).any deviates then
    inverseWeights (deviations env (gridWindow rows lookback t) n)
  else List.replicate n (equalShare n)

def weights (rows : List (GridRow V)) (weighting : Weighting) (lookback : Int) (n : Nat) : List (List K) :=
  (List.range rows.length).map (weightRow env rows weighting lookback n)

/-- What `combine` gives. -/
structure Combined (D V K : Type) where
  dates : List D
  returns : List (List V)
  weights : List (List K)
  combined : List V

/-- `(W * R).sum` over the members, for one day. -/
def combineRow (ws : List K) (rs : List V) : V := (List.zipWith env.weigh ws rs).foldl env.add env.zero

def combine [LinearOrder D] (series : List (Series Raw V)) (weighting : Weighting) (lookback : Int) :
    Combined D V K :=
  let rows := grid env series
  let ws := weights env rows weighting lookback series.length
  { dates := ensembleDates env series
    returns := rows.map GridRow.returns
    weights := ws
    combined := List.zipWith (combineRow env) ws (rows.map GridRow.returns) }

def Combined.take (c : Combined D V K) (k : Nat) : Combined D V K :=
  { dates := c.dates.take k, returns := c.returns.take k, weights := c.weights.take k, combined := c.combined.take k }

end Model

/-! ## Weights -/

section Weights

variable {Raw D V K : Type} [Field K] [LinearOrder K]

theorem sum_split (share equal : K) (sds : List (Option K)) :
    (sds.map fun sd => if deviates sd then inverse sd * share else equal).sum =
      (sds.map inverse).sum * share + ((sds.length - sds.countP deviates : Nat) : K) * equal := by
  induction sds with
  | nil => simp
  | cons sd sds ih =>
    have le := List.countP_le_length (p := deviates) (l := sds)
    simp only [List.map_cons, List.sum_cons, ih, List.length_cons, List.countP_cons]
    cases ok : deviates sd with
    | true =>
      simp only [if_true]
      rw [show sds.length + 1 - (sds.countP deviates + 1) = sds.length - sds.countP deviates by omega]
      ring
    | false =>
      have none_ : inverse sd = 0 := by
        unfold inverse
        rw [ok]
        rfl
      simp only [Bool.false_eq_true, if_false, Nat.add_zero, none_]
      rw [show sds.length + 1 - sds.countP deviates = sds.length - sds.countP deviates + 1 by omega]
      push_cast
      ring

variable [IsStrictOrderedRing K]

theorem equalShare_nonneg (n : Nat) : (0 : K) ≤ equalShare n := div_nonneg zero_le_one n.cast_nonneg

theorem sum_equal {n : Nat} (some_ : n ≠ 0) : (List.replicate n (equalShare n : K)).sum = 1 := by
  rw [List.sum_replicate, equalShare, nsmul_eq_mul, mul_one_div, div_self (Nat.cast_ne_zero.mpr some_)]

theorem inverse_nonneg (sd : Option K) : 0 ≤ inverse sd := by
  unfold inverse
  split
  case isTrue ok =>
    cases sd with
    | none => exact absurd ok Bool.false_ne_true
    | some sd =>
      have positive : (0 : K) < 1 / 10 ^ 12 := by positivity
      exact div_nonneg zero_le_one (positive.trans (of_decide_eq_true ok)).le
  case isFalse => exact le_rfl

theorem inverse_pos {sd : Option K} (ok : deviates sd = true) : 0 < inverse sd := by
  unfold inverse
  rw [if_pos ok]
  cases sd with
  | none => exact absurd ok Bool.false_ne_true
  | some sd =>
    have positive : (0 : K) < 1 / 10 ^ 12 := by positivity
    exact div_pos one_pos (positive.trans (of_decide_eq_true ok))

theorem inverseWeights_spec {sds : List (Option K)} (some_ : sds.any deviates = true) :
    (∀ w ∈ inverseWeights sds, 0 ≤ w) ∧ (inverseWeights sds).sum = 1 := by
  obtain ⟨sd, mem, ok⟩ := List.any_eq_true.mp some_
  have members : sds.length ≠ 0 := Nat.ne_of_gt (List.length_pos_of_mem mem)
  have positive : (0 : K) < sds.length := by exact_mod_cast Nat.pos_of_ne_zero members
  have total : 0 < (sds.map inverse).sum := by
    have le : inverse sd ≤ (sds.map inverse).sum := by
      refine List.single_le_sum ?_ _ (List.mem_map_of_mem mem)
      intro x there
      obtain ⟨sd', -, rfl⟩ := List.mem_map.mp there
      exact inverse_nonneg sd'
    exact (inverse_pos ok).trans_le le
  have part : 0 ≤ 1 - ((sds.length - sds.countP deviates : Nat) : K) / sds.length := by
    have le : ((sds.length - sds.countP deviates : Nat) : K) ≤ sds.length := by exact_mod_cast Nat.sub_le _ _
    exact sub_nonneg.mpr ((div_le_one positive).mpr le)
  constructor
  · intro w there
    obtain ⟨sd', -, rfl⟩ := List.mem_map.mp there
    split
    · exact mul_nonneg (div_nonneg (inverse_nonneg sd') total.le) part
    · exact equalShare_nonneg _
  · have split := sum_split ((1 - ((sds.length - sds.countP deviates : Nat) : K) / sds.length) / (sds.map inverse).sum)
      (equalShare sds.length) sds
    have same : inverseWeights sds = sds.map fun sd => if deviates sd then
        inverse sd * ((1 - ((sds.length - sds.countP deviates : Nat) : K) / sds.length) / (sds.map inverse).sum)
        else equalShare sds.length := by
      unfold inverseWeights
      refine List.map_congr_left fun sd _ => ?_
      split
      · rw [div_mul_eq_mul_div, mul_div_assoc]
      · rfl
    rw [same, split, mul_div_cancel₀ _ total.ne', equalShare]
    ring

theorem weightRow_spec (env : EnsembleEnv Raw D V K) (rows : List (GridRow V)) (weighting : Weighting)
    (lookback : Int) {n : Nat} (t : Nat) (some_ : n ≠ 0) :
    (∀ w ∈ weightRow env rows weighting lookback n t, 0 ≤ w) ∧
      (weightRow env rows weighting lookback n t).sum = 1 := by
  have equal : (∀ w ∈ List.replicate n (equalShare n : K), 0 ≤ w) ∧
      (List.replicate n (equalShare n : K)).sum = 1 := by
    refine ⟨fun w mem => ?_, sum_equal some_⟩
    rw [List.eq_of_mem_replicate mem]
    exact equalShare_nonneg n
  unfold weightRow
  split
  · exact equal
  · split
    · exact equal
    · split
      case isTrue any => exact inverseWeights_spec any
      case isFalse => exact equal

end Weights

/-! ## Cuts -/

section Cuts

variable {Raw D V K : Type} [LinearOrder D] {env : EnsembleEnv Raw D V K} {series : List (Series Raw V)}
  {cut : D}

theorem ensembleDates_inSample (env : EnsembleEnv Raw D V K) (series : List (Series Raw V)) (cut : D) :
    ensembleDates env (inSample env series (some cut)) = (ensembleDates env series).filter fun d => d < cut := by
  unfold ensembleDates
  rw [← distinct_filter, List.filter_flatMap, inSample, List.flatMap_map]
  refine congrArg distinct (List.flatMap_congr fun s _ => ?_)
  rw [List.filter_map]
  rfl

theorem gridRow_inSample {d : D} (before : d < cut) :
    gridRow env (inSample env series (some cut)) d = gridRow env series d := by
  have same : ∀ s : Series Raw V,
      reportedOn env (s.filter fun entry => (some cut).all fun cut => env.day entry.1 < cut) d =
        reportedOn env s d := by
    intro s
    unfold reportedOn
    rw [List.filter_filter]
    refine congrArg _ (List.filter_congr fun entry _ => ?_)
    by_cases on : env.day entry.1 = d
    · simp [on, before]
    · simp [on]
  unfold gridRow inSample
  rw [List.map_map, List.map_map]
  congr 1
  · exact List.map_congr_left fun s _ => by rw [Function.comp_apply, same s]
  · exact List.map_congr_left fun s _ => by rw [Function.comp_apply, same s]

theorem grid_inSample (env : EnsembleEnv Raw D V K) (series : List (Series Raw V)) (cut : D) :
    ∃ k ≤ (ensembleDates env series).length,
      ensembleDates env (inSample env series (some cut)) = (ensembleDates env series).take k ∧
      grid env (inSample env series (some cut)) = (grid env series).take k ∧
      (∀ d ∈ (ensembleDates env series).take k, d < cut) ∧ ∀ d ∈ (ensembleDates env series).drop k, cut ≤ d := by
  obtain ⟨k, le, first, after⟩ := filter_lt_eq_take (distinct_sorted _) cut
  change (ensembleDates env series).filter _ = (ensembleDates env series).take k at first
  have days := (ensembleDates_inSample env series cut).trans first
  have before : ∀ d ∈ (ensembleDates env series).take k, d < cut := by
    intro d mem
    rw [← first] at mem
    exact of_decide_eq_true (List.mem_filter.mp mem).2
  refine ⟨k, le, days, ?_, before, after⟩
  unfold grid
  rw [days, ← List.map_take]
  exact List.map_congr_left fun d mem => gridRow_inSample (before d mem)

variable [Field K] [LinearOrder K]

omit [LinearOrder D] in
theorem weightRow_take (env : EnsembleEnv Raw D V K) (rows : List (GridRow V)) (weighting : Weighting)
    (lookback : Int) (n : Nat) {t k : Nat} (le : t ≤ k) :
    weightRow env (rows.take k) weighting lookback n t = weightRow env rows weighting lookback n t := by
  unfold weightRow gridWindow
  rw [List.take_take, Nat.min_eq_left le]

omit [LinearOrder D] in
theorem weights_take (env : EnsembleEnv Raw D V K) (rows : List (GridRow V)) (weighting : Weighting)
    (lookback : Int) (n k : Nat) :
    weights env (rows.take k) weighting lookback n = (weights env rows weighting lookback n).take k := by
  unfold weights
  rw [List.length_take, ← List.map_take, List.take_range]
  exact List.map_congr_left fun t mem =>
    weightRow_take env rows weighting lookback n (by have := List.mem_range.mp mem; omega)

theorem combine_inSample (env : EnsembleEnv Raw D V K) (series : List (Series Raw V)) (weighting : Weighting)
    (lookback : Int) (cut : D) :
    ∃ k, combine env (inSample env series (some cut)) weighting lookback =
        (combine env series weighting lookback).take k ∧
      (∀ d ∈ (combine env series weighting lookback).dates.take k, d < cut) ∧
      ∀ d ∈ (combine env series weighting lookback).dates.drop k, cut ≤ d := by
  obtain ⟨k, -, days, rows, before, after⟩ := grid_inSample env series cut
  refine ⟨k, ?_, before, after⟩
  have members : (inSample env series (some cut)).length = series.length := List.length_map _
  unfold combine Combined.take
  dsimp only
  rw [days, rows, members, weights_take, List.map_take, List.take_zipWith]

theorem weights_eq_of_inSample (env : EnsembleEnv Raw D V K) {series series' : List (Series Raw V)}
    (weighting : Weighting) (lookback : Int) {d : D} {t t' : Nat}
    (there : (combine env series weighting lookback).dates[t]? = some d)
    (there' : (combine env series' weighting lookback).dates[t']? = some d)
    (same : inSample env series (some d) = inSample env series' (some d)) :
    (combine env series weighting lookback).weights[t]? = (combine env series' weighting lookback).weights[t']? := by
  have read : ∀ {series : List (Series Raw V)} {t : Nat}, (ensembleDates env series)[t]? = some d →
      (weights env (grid env series) weighting lookback series.length)[t]? =
        some (weightRow env (grid env (inSample env series (some d))) weighting lookback
          (inSample env series (some d)).length (grid env (inSample env series (some d))).length) := by
    intro series t there
    obtain ⟨k, le, -, rows, before, after⟩ := grid_inSample env series d
    obtain ⟨inside, is_⟩ := List.getElem?_eq_some_iff.mp there
    have long : (grid env series).length = (ensembleDates env series).length := List.length_map _
    -- The day itself is the first one that is not before the cut.
    have here : t = k := by
      rcases Nat.lt_trichotomy t k with early | same | late
      · have mem : d ∈ (ensembleDates env series).take k := by
          refine List.mem_of_getElem? (i := t) ?_
          rw [List.getElem?_take_of_lt early, there]
        exact absurd (before d mem) (lt_irrefl d)
      · exact same
      · have first := after _ (List.mem_of_getElem? (i := 0) (by
          rw [List.getElem?_drop, Nat.add_zero, List.getElem?_eq_getElem (by omega)]))
        have order := List.pairwise_iff_getElem.mp (distinct_sorted _) k t
          (show k < (ensembleDates env series).length by omega) inside late
        exact absurd (lt_of_lt_of_eq order is_) (not_lt.mpr first)
    have members : (inSample env series (some d)).length = series.length := List.length_map _
    rw [rows, members, List.length_take, Nat.min_eq_left (by omega), ← here,
      weightRow_take env _ weighting lookback _ (Nat.le_refl t)]
    unfold weights
    rw [List.getElem?_map, List.getElem?_range (by omega)]
    rfl
  exact (read there).trans ((congrArg (fun before : List (Series Raw V) => some (weightRow env (grid env before)
    weighting lookback before.length (grid env before).length)) same).trans (read there').symm)

end Cuts

/-- Ensembles are causal and conservative: the weights of a day are not negative and make up one, they are made of
the returns before it, and the series before a cut combine to what all series combine to before it. -/
theorem combine_causal {Raw D V K : Type} [LinearOrder D] [Field K] [LinearOrder K] [IsStrictOrderedRing K]
    (env : EnsembleEnv Raw D V K) (series : List (Series Raw V)) (weighting : Weighting) (lookback : Int) :
    (∀ ws ∈ (combine env series weighting lookback).weights, (∀ w ∈ ws, 0 ≤ w) ∧ ws.sum = 1) ∧
      (∀ (series' : List (Series Raw V)) (d : D) (t t' : Nat),
        (combine env series weighting lookback).dates[t]? = some d →
        (combine env series' weighting lookback).dates[t']? = some d →
        inSample env series (some d) = inSample env series' (some d) →
        (combine env series weighting lookback).weights[t]? =
          (combine env series' weighting lookback).weights[t']?) ∧
      ∀ cut, ∃ k, combine env (inSample env series (some cut)) weighting lookback =
          (combine env series weighting lookback).take k ∧
        (∀ d ∈ (combine env series weighting lookback).dates.take k, d < cut) ∧
        ∀ d ∈ (combine env series weighting lookback).dates.drop k, cut ≤ d := by
  refine ⟨fun ws mem => ?_, fun series' d t t' there there' same => ?_, fun cut => ?_⟩
  · obtain ⟨t, inside, rfl⟩ := List.mem_map.mp mem
    refine weightRow_spec env _ weighting lookback t fun none_ => ?_
    have empty : series = [] := List.length_eq_zero_iff.mp none_
    subst empty
    exact absurd inside List.not_mem_nil
  · exact weights_eq_of_inSample env weighting lookback there there' same
  · exact combine_inSample env series weighting lookback cut

/-- Exact returns on numbered days, with the spread of a window for its deviation. -/
def spreadEnv : EnsembleEnv Nat Nat ℚ ℚ where
  day := id
  zero := 0
  sigma xs := some (xs.foldl max 0 - xs.foldl min 0)
  weigh := (· * ·)
  add := (· + ·)

def twoMembers : List (Series Nat ℚ) :=
  [[(1, 1), (2, 0), (3, 1), (4, 0), (5, 1), (6, 2), (7, 1)], [(1, 3), (2, 0), (3, 3), (4, 0), (5, 3), (6, 0), (7, 5)]]

/-- The sixth day is the first that does not weigh the members equally. -/
theorem combine_causal_twoMembers :
    ((combine spreadEnv twoMembers .inverseVol 5).weights[5]? = some [3 / 4, 1 / 4]) ∧
      ∃ k, combine spreadEnv (inSample spreadEnv twoMembers (some 6)) .inverseVol 5 =
        (combine spreadEnv twoMembers .inverseVol 5).take k := by
  refine ⟨by with_unfolding_all decide, ?_⟩
  obtain ⟨k, same, -⟩ := (combine_causal spreadEnv twoMembers .inverseVol 5).2.2 6
  exact ⟨k, same⟩

end FreeSwarm.Objectives.Ensembles
