import FreeSwarm.Foundation.Interpolation
import Mathlib.Data.Int.Interval
import Mathlib.Data.List.MinMax
import Mathlib.Tactic.FieldSimp
import Mathlib.Tactic.Positivity

/-!
# The home battery

`simulate` runs a strategy with any amounts, and `oracle` plans over a grid of charge levels. The plan is a bound for
strategies that draw no more in an hour than its longest move, and stop where its lowest level is.
-/

namespace FreeSwarm.TaskKit.Battery

open FreeSwarm.Foundation

/-! ## Model -/

def CAPACITY_KWH : ℚ := 27 / 2
def POWER_KW : ℚ := 5
def EFF_IN : ℚ := 19 / 20
def EFF_OUT : ℚ := 19 / 20
def WEAR_PER_KWH : ℚ := 1 / 100
def START_SOC : ℚ := 1 / 2

inductive ActionRule where
  | noReserve | reserve20 | reserve50

/-- `RESERVES`. -/
def ActionRule.reserve : ActionRule → ℚ
  | noReserve => 0
  | reserve20 => 1 / 5
  | reserve50 => 1 / 2

structure Hour where
  profit : ℚ
  soc : ℚ
  moved : ℚ

/-- `np.clip(action, -1, 1) * POWER_KW`. -/
def want (a : ℚ) : ℚ := max (-1) (min a 1) * POWER_KW

variable (reserve : ℚ)

/-- `floor`. -/
def lowest : ℚ := reserve * CAPACITY_KWH

/-- An hour: the charge before it, the action and the price. -/
def hour (s a p : ℚ) : Hour :=
  if 0 < want a then
    let e := min (want a) ((CAPACITY_KWH - s) / EFF_IN)
    ⟨-e * p / 1000 - WEAR_PER_KWH * e * EFF_IN, s + e * EFF_IN, e⟩
  else if want a < 0 then
    let d := min (-want a / EFF_OUT) (max 0 (s - lowest reserve))
    ⟨d * EFF_OUT * p / 1000 - WEAR_PER_KWH * d, s - d, -d * EFF_OUT⟩
  else ⟨0, s, 0⟩

/-- The hours after the first one, for the actions and prices. -/
def run : ℚ → List (ℚ × ℚ) → List Hour
  | _, [] => []
  | s, (a, p) :: rest => hour reserve s a p :: run (hour reserve s a p).soc rest

def startCharge : ℚ := START_SOC * CAPACITY_KWH

/-- `simulate`. It raises if there is no price, or no action for one. -/
def simulate (price action : List ℚ) : Option (List Hour) :=
  if price = [] ∨ action.length < price.tail.length then none
  else some (⟨0, startCharge, 0⟩ :: run reserve startCharge (action.zip price.tail))

def levels : Nat := 55

/-- `step`. -/
def gridStep : ℚ := CAPACITY_KWH / (levels - 1)

def jmin : Int := ⌈reserve * (levels - 1) - 1 / 10 ^ 9⌉

def kmaxIn : Int := ⌊POWER_KW * EFF_IN / gridStep + 1 / 10 ^ 9⌋

def kmaxOut : Int :=
  min ⌊POWER_KW / EFF_OUT / gridStep + 1 / 10 ^ 9⌋ ⌊POWER_KW / gridStep / EFF_OUT + 1 / 10 ^ 9⌋

def ks : List Int :=
  ((List.range (kmaxOut + kmaxIn + 1).toNat).map fun i => (i : Int) - kmaxOut).filter fun k =>
    if k < 0 then -k * gridStep * EFF_OUT ≤ POWER_KW + 1 / 10 ^ 9
    else k * gridStep / EFF_IN ≤ POWER_KW + 1 / 10 ^ 9

/-- `r`: what a move of some steps gains. -/
def gain (p k : ℚ) : ℚ :=
  if 0 < k then -(k * gridStep / EFF_IN) * p / 1000 - WEAR_PER_KWH * k * gridStep
  else if k < 0 then -k * gridStep * EFF_OUT * p / 1000 - WEAR_PER_KWH * (-k * gridStep)
  else 0

/-- `ok`. -/
def Allowed (j k : Int) : Prop := 0 ≤ j + k ∧ j + k < levels ∧ (0 ≤ k ∨ jmin reserve ≤ j + k)

instance (j k : Int) : Decidable (Allowed reserve j k) := inferInstanceAs (Decidable (_ ∧ _ ∧ _))

/-- `V[j]`. -/
def valueOf (V : List ℚ) (j : Int) : ℚ := V.getD j.toNat 0

/-- What a move gains, now and later. -/
def worth (p : ℚ) (V : List ℚ) (j k : Int) : ℚ := gain p k + valueOf V (j + k)

/-- `arg`: the first of the best moves. -/
def arg (p : ℚ) (V : List ℚ) (j : Int) : Int :=
  ((ks.filter fun k => Allowed reserve j k).argmax (worth p V j)).getD 0

/-- `V` and `choice` for some prices. -/
def plan : List ℚ → List ℚ × List (List Int)
  | [] => (List.replicate levels 0, [])
  | p :: ps =>
    let V := (plan ps).1
    let best := (List.range levels).map fun j : Nat => arg reserve p V j
    ((List.range levels).map fun j : Nat => worth p V j (best.getD j 0), best :: (plan ps).2)

/-- The profits of the plan, from a level. -/
def follow : List ℚ → List (List Int) → Int → List ℚ
  | p :: ps, choice :: choices, lvl =>
    let k := choice.getD lvl.toNat 0
    gain p k :: follow ps choices (lvl + k)
  | _, _, _ => []

def startLevel : Int := round (START_SOC * (levels - 1))

def oracle : List ℚ → List ℚ
  | [] => []
  | _ :: ps => 0 :: follow ps (plan reserve ps).2 startLevel

/-! ## Every hour -/

/-- What holds of an hour, by the charge before it. -/
structure HourLaw (s : ℚ) (h : Hour) : Prop where
  within : 0 ≤ h.soc ∧ h.soc ≤ CAPACITY_KWH
  power : |h.moved| ≤ POWER_KW
  kept : h.moved < 0 → lowest reserve ≤ h.soc
  conserved : h.soc = s + EFF_IN * max h.moved 0 - max (-h.moved) 0 / EFF_OUT

def Lawful : ℚ → List Hour → Prop
  | _, [] => True
  | s, h :: hs => HourLaw reserve s h ∧ Lawful h.soc hs

/-- A sale that the plan can make as well, or a part of one: it asks for no more than the longest move, or there is no
more, and it stops where the lowest level is. -/
def Planned (s a : ℚ) : Prop :=
  want a < 0 → (-want a / EFF_OUT ≤ kmaxOut * gridStep ∨ s - lowest reserve ≤ kmaxOut * gridStep) ∧
    (jmin reserve * gridStep = lowest reserve ∨ jmin reserve * gridStep ≤ s + want a / EFF_OUT)

/-- The sales of a run can be planned. -/
def AllPlanned : ℚ → List (ℚ × ℚ) → Prop
  | _, [] => True
  | s, (a, p) :: rest => Planned reserve s a ∧ AllPlanned (hour reserve s a p).soc rest

variable {reserve} {s a p : ℚ}

theorem want_bound (a : ℚ) : -5 ≤ want a ∧ want a ≤ 5 := by
  have low : -1 ≤ max (-1) (min a 1) := le_max_left _ _
  have high : max (-1) (min a 1) ≤ 1 := max_le (by norm_num) (min_le_right _ _)
  unfold want POWER_KW
  constructor <;> linarith

theorem hour_law (nonneg : 0 ≤ reserve) (low : 0 ≤ s) (high : s ≤ CAPACITY_KWH) :
    HourLaw reserve s (hour reserve s a p) := by
  have bounds := want_bound a
  have floor : 0 ≤ lowest reserve := mul_nonneg nonneg (by norm_num [CAPACITY_KWH])
  dsimp only [hour]
  split_ifs with buys sells
  · have positive : 0 ≤ min (want a) ((CAPACITY_KWH - s) / EFF_IN) :=
      le_min buys.le (div_nonneg (by linarith) (by norm_num [EFF_IN]))
    have room : min (want a) ((CAPACITY_KWH - s) / EFF_IN) * EFF_IN ≤ CAPACITY_KWH - s :=
      (le_div_iff₀ (by norm_num [EFF_IN])).mp (min_le_right _ _)
    have most := min_le_left (want a) ((CAPACITY_KWH - s) / EFF_IN)
    generalize min (want a) ((CAPACITY_KWH - s) / EFF_IN) = e at *
    refine ⟨⟨?_, ?_⟩, ?_, fun sold => absurd sold (not_lt.mpr positive), ?_⟩
    · exact add_nonneg low (mul_nonneg positive (by norm_num [EFF_IN]))
    · linarith
    · rw [abs_of_nonneg positive]
      exact most.trans bounds.2
    · rw [max_eq_left positive, max_eq_right (neg_nonpos.mpr positive)]
      ring
  · have positive : 0 ≤ min (-want a / EFF_OUT) (max 0 (s - lowest reserve)) :=
      le_min (div_nonneg (by linarith) (by norm_num [EFF_OUT])) (le_max_left _ _)
    have most : min (-want a / EFF_OUT) (max 0 (s - lowest reserve)) * EFF_OUT ≤ -want a :=
      (le_div_iff₀ (by norm_num [EFF_OUT])).mp (min_le_left _ _)
    have there := min_le_right (-want a / EFF_OUT) (max 0 (s - lowest reserve))
    generalize min (-want a / EFF_OUT) (max 0 (s - lowest reserve)) = d at *
    have drawn : d ≤ s := there.trans (max_le low (by linarith))
    have sold : 0 ≤ d * EFF_OUT := mul_nonneg positive (by norm_num [EFF_OUT])
    refine ⟨⟨by linarith, by linarith⟩, ?_, fun moved => ?_, ?_⟩
    · rw [neg_mul, abs_neg, abs_of_nonneg sold]
      exact most.trans (by linarith [bounds.1, show POWER_KW = 5 from rfl])
    · have positive : 0 < d := by
        by_contra none_
        rw [le_antisymm (not_lt.mp none_) positive] at moved
        simp at moved
      rcases le_total (s - lowest reserve) 0 with empty | some_
      · exact absurd (there.trans_eq (max_eq_left empty)) (not_le.mpr positive)
      · rw [max_eq_right some_] at there
        linarith
    · rw [neg_mul, neg_neg, max_eq_left sold, max_eq_right (neg_nonpos.mpr sold),
        mul_div_cancel_right₀ d (by norm_num [EFF_OUT])]
      ring
  · exact ⟨⟨low, high⟩, by norm_num [POWER_KW], fun moved => absurd moved (lt_irrefl 0), by simp⟩

theorem run_lawful (nonneg : 0 ≤ reserve) (low : 0 ≤ s) (high : s ≤ CAPACITY_KWH) (steps : List (ℚ × ℚ)) :
    Lawful reserve s (run reserve s steps) := by
  induction steps generalizing s with
  | nil => trivial
  | cons step steps ih =>
    have law := hour_law (a := step.1) (p := step.2) nonneg low high
    exact ⟨law, ih law.within.1 law.within.2⟩

/-! ## The plan -/

theorem mem_ks {k : Int} (low : -21 ≤ k) (high : k ≤ 19) : k ∈ ks := by
  have all : ∀ k ∈ Finset.Icc (-21 : Int) 19, k ∈ ks := by with_unfolding_all decide
  exact all k (Finset.mem_Icc.mpr ⟨low, high⟩)

variable {V : List ℚ} {j k : Int} {ps : List ℚ}

theorem arg_spec (low : 0 ≤ j) (high : j < levels) : Allowed reserve j (arg reserve p V j) ∧
    ∀ k ∈ ks, Allowed reserve j k → worth p V j k ≤ worth p V j (arg reserve p V j) := by
  have stay : (0 : Int) ∈ ks.filter fun k => Allowed reserve j k :=
    List.mem_filter.mpr ⟨mem_ks (by norm_num) (by norm_num), decide_eq_true ⟨by omega, by omega, .inl le_rfl⟩⟩
  unfold arg
  cases best : (ks.filter fun k => Allowed reserve j k).argmax (worth p V j) with
  | none =>
    rw [List.argmax_eq_none.mp best] at stay
    exact absurd stay List.not_mem_nil
  | some k =>
    have mem := List.argmax_mem best
    refine ⟨of_decide_eq_true (List.mem_filter.mp mem).2, fun k' mem allowed => ?_⟩
    exact List.le_of_mem_argmax (List.mem_filter.mpr ⟨mem, decide_eq_true allowed⟩) best

theorem choice_getD (low : 0 ≤ j) (high : j < levels) :
    ((List.range levels).map fun j : Nat => arg reserve p V j).getD j.toNat 0 = arg reserve p V j := by
  have inside : j.toNat < levels := by omega
  simp [List.getD, inside, low]

theorem valueOf_plan (low : 0 ≤ j) (high : j < levels) :
    valueOf (plan reserve (p :: ps)).1 j =
      worth p (plan reserve ps).1 j (arg reserve p (plan reserve ps).1 j) := by
  have inside : j.toNat < levels := by omega
  simp [plan, valueOf, List.getD, inside, low]

theorem follow_sum (ps : List ℚ) (low : 0 ≤ j) (high : j < levels) :
    (follow ps (plan reserve ps).2 j).sum = valueOf (plan reserve ps).1 j := by
  induction ps generalizing j with
  | nil =>
    have inside : j.toNat < levels := by omega
    simp [follow, plan, valueOf, inside]
  | cons p ps ih =>
    have allowed : Allowed reserve j (arg reserve p (plan reserve ps).1 j) := (arg_spec low high).1
    rw [valueOf_plan low high, worth, ← ih allowed.1 allowed.2.1]
    simp only [plan, follow, choice_getD low high, List.sum_cons]

theorem gain_of_nonneg {x : ℚ} (nonneg : 0 ≤ x) :
    gain p x = -(x * gridStep / EFF_IN) * p / 1000 - WEAR_PER_KWH * x * gridStep := by
  rcases nonneg.eq_or_lt with rfl | positive
  · simp [gain]
  · rw [gain, if_pos positive]

theorem gain_of_nonpos {x : ℚ} (nonpos : x ≤ 0) :
    gain p x = -x * gridStep * EFF_OUT * p / 1000 - WEAR_PER_KWH * (-x * gridStep) := by
  rcases nonpos.eq_or_lt with rfl | negative
  · simp [gain]
  · rw [gain, if_neg negative.le.not_gt, if_pos negative]

theorem gain_straight (p : ℚ) (k : Int) (w : ℚ) (low : 0 ≤ w) (high : w ≤ 1) :
    gain p (k + w) = (1 - w) * gain p k + w * gain p ((k + 1 : Int) : ℚ) := by
  rcases le_or_gt 0 k with le | lt
  · have cast : (0 : ℚ) ≤ k := by exact_mod_cast le
    rw [gain_of_nonneg (add_nonneg cast low), gain_of_nonneg cast, gain_of_nonneg (by push_cast; linarith)]
    push_cast
    ring
  · have cast : (k : ℚ) + 1 ≤ 0 := by exact_mod_cast lt
    rw [gain_of_nonpos (by linarith), gain_of_nonpos (by linarith), gain_of_nonpos (by push_cast; exact cast)]
    push_cast
    ring

/-! ## The bound -/

theorem gridStep_eq : gridStep = 1 / 4 := by norm_num [gridStep, CAPACITY_KWH, levels]

theorem kmaxOut_eq : kmaxOut = 21 := by with_unfolding_all decide

theorem hour_move (high : s ≤ CAPACITY_KWH) (planned : Planned reserve s a) :
    (hour reserve s a p).profit = gain p (((hour reserve s a p).soc - s) / gridStep) ∧
    -21 ≤ ((hour reserve s a p).soc - s) / gridStep ∧ ((hour reserve s a p).soc - s) / gridStep ≤ 19 ∧
    (((hour reserve s a p).soc - s) / gridStep < 0 → jmin reserve ≤ (hour reserve s a p).soc / gridStep) := by
  have bounds := want_bound a
  dsimp only [hour]
  split_ifs with buys sells
  · have positive : 0 ≤ min (want a) ((CAPACITY_KWH - s) / EFF_IN) :=
      le_min buys.le (div_nonneg (by linarith) (by norm_num [EFF_IN]))
    have most := (min_le_left (want a) ((CAPACITY_KWH - s) / EFF_IN)).trans bounds.2
    generalize min (want a) ((CAPACITY_KWH - s) / EFF_IN) = e at *
    have move : (s + e * EFF_IN - s) / gridStep = e * (19 / 5) := by rw [gridStep_eq, EFF_IN]; ring
    dsimp only
    rw [move]
    refine ⟨?_, by linarith, by linarith, fun negative => absurd negative (not_lt.mpr (by linarith))⟩
    rw [gain_of_nonneg (by linarith), gridStep_eq, EFF_IN]
    ring
  · obtain ⟨short, stops⟩ := planned sells
    have positive : 0 ≤ min (-want a / EFF_OUT) (max 0 (s - lowest reserve)) :=
      le_min (div_nonneg (by linarith) (by norm_num [EFF_OUT])) (le_max_left _ _)
    have asked := min_le_left (-want a / EFF_OUT) (max 0 (s - lowest reserve))
    have there := min_le_right (-want a / EFF_OUT) (max 0 (s - lowest reserve))
    generalize min (-want a / EFF_OUT) (max 0 (s - lowest reserve)) = d at *
    have move : (s - d - s) / gridStep = -(4 * d) := by rw [gridStep_eq]; ring
    have most : d ≤ kmaxOut * gridStep := by
      rcases short with short | short
      · exact asked.trans short
      · exact there.trans (max_le (by rw [kmaxOut_eq, gridStep_eq]; norm_num) short)
    rw [kmaxOut_eq, gridStep_eq] at most
    push_cast at most
    dsimp only
    rw [move]
    refine ⟨?_, by linarith, by linarith, fun negative => ?_⟩
    · rw [gain_of_nonpos (by linarith), gridStep_eq]
      ring
    · rw [le_div_iff₀ (by norm_num [gridStep_eq])]
      rcases stops with stops | stops
      · rcases le_total (s - lowest reserve) 0 with empty | some_
        · rw [max_eq_left empty] at there
          linarith
        · rw [max_eq_right some_] at there
          linarith
      · rw [neg_div] at asked
        linarith
  · simp [gain]

theorem run_le (nonneg : 0 ≤ reserve) (low : 0 ≤ s) (high : s ≤ CAPACITY_KWH) (steps : List (ℚ × ℚ))
    (planned : AllPlanned reserve s steps) :
    ((run reserve s steps).map Hour.profit).sum ≤
      interpolate (valueOf (plan reserve (steps.map Prod.snd)).1) (s / gridStep) := by
  have grid {s : ℚ} (high : s ≤ CAPACITY_KWH) : s / gridStep ≤ 54 := by
    rw [div_le_iff₀ (by norm_num [gridStep_eq]), gridStep_eq]
    exact high.trans (by norm_num [CAPACITY_KWH])
  have base : 0 < gridStep := by norm_num [gridStep_eq]
  induction steps generalizing s with
  | nil =>
    have none_ (j : Int) : valueOf (plan reserve []).1 j = 0 := by
      unfold plan valueOf
      rcases lt_or_ge j.toNat levels with inside | out
      · simp [inside]
      · simp [out]
    simp [run, interpolate, none_]
  | cons step steps ih =>
    obtain ⟨a, p⟩ := step
    have law := hour_law (a := a) (p := p) nonneg low high
    obtain ⟨profit, least, most, stops⟩ := hour_move (p := p) high planned.1
    have later := ih law.within.1 law.within.2 planned.2
    refine le_trans ?_ (interpolate_step (V := valueOf (plan reserve (steps.map Prod.snd)).1)
      (y := (hour reserve s a p).soc / gridStep) (gain_straight p) fun i j xNear yNear move => ?_)
    · rw [run, List.map_cons, List.sum_cons, profit, sub_div]
      exact add_le_add_right later _
    · rw [abs_lt] at xNear yNear move
      rw [← sub_div] at move
      have start := div_nonneg low base.le
      have ends := div_nonneg law.within.1 base.le
      have iLow : -1 < i := by exact_mod_cast (by linarith : (-1 : ℚ) < i)
      have iHigh : i < 55 := by exact_mod_cast (by linarith [grid high] : (i : ℚ) < 55)
      have jLow : -1 < j := by exact_mod_cast (by linarith : (-1 : ℚ) < j)
      have jHigh : j < 55 := by exact_mod_cast (by linarith [grid law.within.2] : (j : ℚ) < 55)
      have short : -22 < j - i := by exact_mod_cast (by linarith : (-22 : ℚ) < (j - i : Int))
      have long : j - i < 20 := by exact_mod_cast (by linarith : ((j - i : Int) : ℚ) < 20)
      have above (negative : j - i < 0) : jmin reserve ≤ j := by
        have back : ((j - i : Int) : ℚ) ≤ -1 := by exact_mod_cast Int.le_sub_one_of_lt negative
        have reached := stops (by linarith)
        exact Int.lt_add_one_iff.mp (by exact_mod_cast (by push_cast; linarith : (jmin reserve : ℚ) < (j + 1 : Int)))
      have same : i + (j - i) = j := by ring
      have allowed : Allowed reserve i (j - i) := by
        rw [Allowed, same]
        exact ⟨by omega, jHigh, (le_or_gt 0 (j - i)).imp_right above⟩
      have best := (arg_spec (p := p) (V := (plan reserve (steps.map Prod.snd)).1) (by omega) iHigh).2 (j - i)
        (mem_ks (by omega) (by omega)) allowed
      rwa [← valueOf_plan (by omega) iHigh, worth, same] at best

/-! ## Results -/

end FreeSwarm.TaskKit.Battery
