import FreeSwarm.Foundation.NpFloat
import Mathlib.Algebra.Order.Ring.Abs
import Mathlib.Tactic.Linarith

/-!
# Sizes of positions

`size` turns directions into positions. The size is chosen when a trade opens, rounded to a step and capped, and is
then held; in bands it is chosen again when it has drifted away. What is chosen instead of a size that rounds to
zero is not capped, and a size that drifts to zero in a trade is taken.
-/

namespace FreeSwarm.Sandbox

open FreeSwarm.Foundation

/-- One value for each row, or one for all. -/
inductive Column where
  | number (x : NpFloat)
  | series (xs : List NpFloat)

inductive Rebalance where
  /-- `"entry"`. -/
  | entry
  /-- `"band"`. -/
  | band
deriving DecidableEq

/-- How positions are sized. -/
structure Sizing where
  base : ℚ
  step : ℚ
  rebalance : Rebalance
  band : ℚ
  maxLeverage : Option ℚ

/-- The lengths of the arguments differ. -/
inductive SizeError where
  /-- `direction has {len(d)} values but scale has {n_scale}`. -/
  | lengths (direction scale : Nat)
deriving DecidableEq

/-- `d`: the direction of each row. One direction for all rows takes the rows of the scale. -/
def directions (direction scale : Column) : List NpFloat :=
  match direction, scale with
  | .number d, .series scale => List.replicate scale.length d
  | .number d, .number _ => [d]
  | .series ds, _ => ds

/-- `s`: the scale of each row. -/
def scales (rows : Nat) (scale : Column) : Except SizeError (List NpFloat) :=
  match scale with
  | .number s => .ok (List.replicate rows s)
  | .series scale =>
    if scale.length = rows then .ok scale
    else if scale.length = 1 then .ok (List.replicate rows (scale.headD .nan))
    else .error (.lengths rows scale.length)

/-- `np.round`: to the nearest whole number, and to the even one of two. -/
def rint (x : ℚ) : Int :=
  if x - ⌊x⌋ < 1 / 2 then ⌊x⌋
  else if 1 / 2 < x - ⌊x⌋ then ⌊x⌋ + 1
  else if ⌊x⌋ % 2 = 0 then ⌊x⌋ else ⌊x⌋ + 1

variable (cfg : Sizing)

/-- `target`: the size that a row asks for. -/
def Sizing.target (d s : NpFloat) : ℚ :=
  let wanted := d.nanToNum 0 * cfg.base * s.nanToNum 1
  let rounded := if cfg.step ≠ 0 then rint (wanted / cfg.step) * cfg.step else wanted
  match cfg.maxLeverage with
  | none => rounded
  | some cap => min (max rounded (-cap)) cap

structure SizeRow where
  sign : Int
  target : ℚ

/-- `step or base`: the size that is taken where the rounded one is zero. -/
def Sizing.fallback : ℚ := if cfg.step ≠ 0 then cfg.step else cfg.base

def sizeStep (held : ℚ) (row : SizeRow) : ℚ :=
  if row.sign = 0 then 0
  else if sgn held ≠ row.sign then
    if row.target ≠ 0 then row.target else row.sign * cfg.fallback
  else if cfg.rebalance = .band ∧ cfg.band ≤ |row.target - held| then row.target
  else held

def sizeLoop (held : ℚ) : List SizeRow → List ℚ
  | [] => []
  | row :: rows => sizeStep cfg held row :: sizeLoop (sizeStep cfg held row) rows

def sizeRows (ds ss : List NpFloat) : List SizeRow :=
  List.zipWith (fun d s => { sign := sgn (d.nanToNum 0), target := cfg.target d s }) ds ss

def size (direction scale : Column) : Except SizeError (List ℚ) :=
  (scales (directions direction scale).length scale).map fun ss =>
    sizeLoop cfg 0 (sizeRows cfg (directions direction scale) ss)

/-! ## Targets -/

variable {cfg : Sizing}

theorem rint_nonneg {x : ℚ} (up : 0 ≤ x) : 0 ≤ rint x := by
  have floor := Int.floor_nonneg.mpr up
  unfold rint
  split
  · exact floor
  · split
    · omega
    · split <;> omega

theorem rint_nonpos {x : ℚ} (down : x ≤ 0) : rint x ≤ 0 := by
  have low : ⌊x⌋ ≤ 0 := by
    have le := (Int.floor_le x).trans down
    exact_mod_cast le
  have gap := Int.lt_floor_add_one x
  unfold rint
  split
  case isTrue => exact low
  case isFalse far =>
    have negative : ⌊x⌋ < 0 := by
      rcases Int.lt_or_eq_of_le low with lt | zero
      · exact lt
      · rw [zero] at far
        norm_num at far
        linarith
    split
    · omega
    · split <;> omega

/-- A number that is not on the other side of zero is zero, or has the same sign. -/
theorem sgn_of_side {x y : ℚ} (up : 0 ≤ y → 0 ≤ x) (down : y ≤ 0 → x ≤ 0) : x = 0 ∨ sgn x = sgn y := by
  rcases lt_trichotomy y 0 with low | rfl | high
  · rcases (down low.le).lt_or_eq with lt | zero
    · exact .inr (by rw [sgn_of_neg lt, sgn_of_neg low])
    · exact .inl zero
  · exact .inl (le_antisymm (down le_rfl) (up le_rfl))
  · rcases (up high.le).lt_or_eq with lt | zero
    · exact .inr (by rw [sgn_of_pos lt, sgn_of_pos high])
    · exact .inl zero.symm

theorem sgn_target {d s : NpFloat} (base : 0 < cfg.base) (step : 0 ≤ cfg.step) (cap : ∀ m ∈ cfg.maxLeverage, 0 < m)
    (scale : 0 ≤ s.nanToNum 1) : cfg.target d s = 0 ∨ sgn (cfg.target d s) = sgn (d.nanToNum 0) := by
  have factor : 0 ≤ cfg.base * s.nanToNum 1 := mul_nonneg base.le scale
  have rounded : ∀ wanted : ℚ,
      (0 ≤ wanted → 0 ≤ if cfg.step ≠ 0 then rint (wanted / cfg.step) * cfg.step else wanted) ∧
      (wanted ≤ 0 → (if cfg.step ≠ 0 then rint (wanted / cfg.step) * cfg.step else wanted) ≤ 0) := by
    intro wanted
    split
    · refine ⟨fun up => mul_nonneg ?_ step, fun down => mul_nonpos_of_nonpos_of_nonneg ?_ step⟩
      · exact_mod_cast rint_nonneg (div_nonneg up step)
      · exact_mod_cast rint_nonpos (div_nonpos_of_nonpos_of_nonneg down step)
    · exact ⟨id, id⟩
  have capped : ∀ x : ℚ,
      (0 ≤ x → 0 ≤ match cfg.maxLeverage with | none => x | some cap => min (max x (-cap)) cap) ∧
      (x ≤ 0 → (match cfg.maxLeverage with | none => x | some cap => min (max x (-cap)) cap) ≤ 0) := by
    intro x
    cases max_ : cfg.maxLeverage with
    | none => exact ⟨id, id⟩
    | some m =>
      have positive := cap m max_
      exact ⟨fun up => le_min (le_max_of_le_left up) positive.le,
        fun down => (min_le_left _ _).trans (max_le down (by linarith))⟩
  refine sgn_of_side (fun up => ?_) fun down => ?_
  · refine (capped _).1 ((rounded _).1 ?_)
    rw [mul_assoc]
    exact mul_nonneg up factor
  · refine (capped _).2 ((rounded _).2 ?_)
    rw [mul_assoc]
    exact mul_nonpos_of_nonpos_of_nonneg down factor

theorem target_le {d s : NpFloat} {m : ℚ} (cap : m ∈ cfg.maxLeverage) (positive : 0 < m) : |cfg.target d s| ≤ m := by
  unfold Sizing.target
  rw [Option.mem_def.mp cap]
  refine abs_le.mpr ⟨le_min (le_max_right _ _) (by linarith), min_le_right _ _⟩

/-! ## Runs -/

/-- A row asks for a size on the side of its direction, and for no more than the cap. -/
structure SizeRow.Fair (cfg : Sizing) (row : SizeRow) : Prop where
  side : row.target = 0 ∨ sgn row.target = row.sign
  sign : row.sign = 0 ∨ row.sign = 1 ∨ row.sign = -1
  capped : ∀ m ∈ cfg.maxLeverage, |row.target| ≤ m

/-- The branches that go wrong are not taken: where a trade opens and the rounded size is zero, the size that is
taken instead is not above the cap; and in bands no size that is zero is taken in a trade. -/
structure Careful (cfg : Sizing) (held : ℚ) (row : SizeRow) : Prop where
  opens : row.sign ≠ 0 → sgn held ≠ row.sign → row.target = 0 → ∀ m ∈ cfg.maxLeverage, cfg.fallback ≤ m
  goesOn : row.sign ≠ 0 → sgn held = row.sign → cfg.rebalance = .band → cfg.band ≤ |row.target - held| →
    row.target ≠ 0

structure Promised (cfg : Sizing) (held : ℚ) (row : SizeRow) (now : ℚ) : Prop where
  sign : sgn now = row.sign
  capped : ∀ m ∈ cfg.maxLeverage, |now| ≤ m
  entry : sgn held = row.sign → cfg.rebalance = .entry → now = held
  drifted : sgn held = row.sign → cfg.rebalance = .band → now ≠ held → cfg.band ≤ |row.target - held|

/-- One round keeps the promises exactly if it takes none of those branches. -/
theorem sizeStep_iff {held : ℚ} {row : SizeRow} (base : 0 < cfg.base) (step : 0 ≤ cfg.step)
    (cap : ∀ m ∈ cfg.maxLeverage, 0 < m) (fair : row.Fair cfg) (holds : ∀ m ∈ cfg.maxLeverage, |held| ≤ m) :
    Promised cfg held row (sizeStep cfg held row) ↔ Careful cfg held row := by
  have fallback : 0 < cfg.fallback := by
    unfold Sizing.fallback
    split
    case isTrue some_ => exact lt_of_le_of_ne step (Ne.symm some_)
    case isFalse => exact base
  unfold sizeStep
  by_cases flat : row.sign = 0
  · -- No direction: flat.
    rw [if_pos flat]
    constructor
    · exact fun _ => ⟨fun some_ => absurd flat some_, fun some_ => absurd flat some_⟩
    · intro _
      refine ⟨by rw [flat, sgn_zero], fun m mem => by rw [abs_zero]; exact (cap m mem).le, fun same _ => ?_,
        fun same _ moved => ?_⟩
      · exact (sgn_eq_zero.mp (same.trans flat)).symm
      · exact absurd (sgn_eq_zero.mp (same.trans flat)).symm moved
  · rw [if_neg flat]
    by_cases opens : sgn held ≠ row.sign
    · rw [if_pos opens]
      by_cases some_ : row.target ≠ 0
      · -- A trade opens with the size that the row asks for.
        rw [if_pos some_]
        refine ⟨fun _ => ⟨fun _ _ zero => absurd zero some_, fun _ same => absurd same opens⟩, fun _ => ?_⟩
        exact ⟨fair.side.resolve_left some_, fair.capped, fun same => absurd same opens,
          fun same => absurd same opens⟩
      · -- A trade opens with a step, or the base.
        rw [if_neg some_]
        have size_ : |(row.sign : ℚ) * cfg.fallback| = cfg.fallback := by
          rcases fair.sign.resolve_left flat with one | one <;> rw [one] <;> simp [abs_of_pos fallback]
        have sign : sgn ((row.sign : ℚ) * cfg.fallback) = row.sign := by
          rw [sgn_mul_of_pos fallback]
          rcases fair.sign.resolve_left flat with one | one <;> rw [one] <;> decide
        constructor
        · exact fun promised => ⟨fun _ _ _ m mem => size_ ▸ promised.capped m mem, fun _ same => absurd same opens⟩
        · intro careful
          exact ⟨sign, fun m mem => size_.le.trans (careful.opens flat opens (not_ne_iff.mp some_) m mem),
            fun same => absurd same opens, fun same => absurd same opens⟩
    · rw [if_neg opens]
      have same : sgn held = row.sign := not_ne_iff.mp opens
      by_cases moves : cfg.rebalance = .band ∧ cfg.band ≤ |row.target - held|
      · -- In a trade, the size has drifted away.
        rw [if_pos moves]
        constructor
        · intro promised
          refine ⟨fun _ other => absurd same other, fun _ _ _ _ zero => flat ?_⟩
          rw [← promised.sign, zero, sgn_zero]
        · intro careful
          have some_ := careful.goesOn flat same moves.1 moves.2
          refine ⟨fair.side.resolve_left some_, fair.capped, fun _ entry => ?_, fun _ _ _ => moves.2⟩
          exact absurd (moves.1.symm.trans entry) (by decide)
      · -- In a trade, the size is held.
        rw [if_neg moves]
        refine ⟨fun _ => ⟨fun _ other => absurd same other, fun _ _ band drifted => absurd ⟨band, drifted⟩ moves⟩,
          fun _ => ⟨same, holds, fun _ _ => rfl, fun _ _ moved => absurd rfl moved⟩⟩

variable {rows : List SizeRow} {held : ℚ} {i : Nat} {row : SizeRow}

def heldBefore (cfg : Sizing) (rows : List SizeRow) (i : Nat) : ℚ := (rows.take i).foldl (sizeStep cfg) 0

theorem sizeLoop_getElem? (cfg : Sizing) (rows : List SizeRow) (held : ℚ) (i : Nat) :
    (sizeLoop cfg held rows)[i]? = rows[i]?.map (sizeStep cfg ((rows.take i).foldl (sizeStep cfg) held)) := by
  induction rows generalizing held i with
  | nil => rfl
  | cons row rows ih =>
    cases i with
    | zero => rfl
    | succ i => exact ih (sizeStep cfg held row) i

theorem heldBefore_succ (there : rows[i]? = some row) :
    heldBefore cfg rows (i + 1) = sizeStep cfg (heldBefore cfg rows i) row := by
  unfold heldBefore
  rw [List.take_add_one, there, Option.toList_some, List.foldl_append, List.foldl_cons, List.foldl_nil]

/-- What positions are to be. -/
structure SizePromises (cfg : Sizing) (rows : List SizeRow) (out : List ℚ) : Prop where
  sign : ∀ (i : Nat) (row : SizeRow), rows[i]? = some row → ∃ x, out[i]? = some x ∧ sgn x = row.sign
  capped : ∀ x ∈ out, ∀ m ∈ cfg.maxLeverage, |x| ≤ m
  entry : cfg.rebalance = .entry → ∀ i j : Nat, i ≤ j → j < rows.length →
    (∀ k, i ≤ k → k ≤ j → (rows[k]?.map SizeRow.sign) = rows[i]?.map SizeRow.sign) → out[j]? = out[i]?
  drifted : cfg.rebalance = .band → ∀ (i : Nat) (row row' : SizeRow) (x x' : ℚ), rows[i]? = some row →
    rows[i + 1]? = some row' → row'.sign = row.sign → out[i]? = some x → out[i + 1]? = some x' → x' ≠ x → cfg.band ≤ |row'.target - x|

/-- The positions keep the promises exactly if none of the branches that go wrong is taken. -/
theorem sizeLoop_iff (base : 0 < cfg.base) (step : 0 ≤ cfg.step) (cap : ∀ m ∈ cfg.maxLeverage, 0 < m)
    (fair : ∀ row ∈ rows, row.Fair cfg) :
    SizePromises cfg rows (sizeLoop cfg 0 rows) ↔
      ∀ i row, rows[i]? = some row → Careful cfg (heldBefore cfg rows i) row := by
  have at_ : ∀ {i row}, rows[i]? = some row →
      (sizeLoop cfg 0 rows)[i]? = some (sizeStep cfg (heldBefore cfg rows i) row) := by
    intro i row there
    rw [sizeLoop_getElem?, there]
    rfl
  have iff_ : ∀ {i row}, rows[i]? = some row → (∀ m ∈ cfg.maxLeverage, |heldBefore cfg rows i| ≤ m) →
      (Promised cfg (heldBefore cfg rows i) row (sizeStep cfg (heldBefore cfg rows i) row) ↔
        Careful cfg (heldBefore cfg rows i) row) :=
    fun there holds => sizeStep_iff base step cap (fair _ (List.mem_of_getElem? there)) holds
  have flat : ∀ m ∈ cfg.maxLeverage, |heldBefore cfg rows 0| ≤ m := by
    intro m mem
    rw [show heldBefore cfg rows 0 = 0 from rfl, abs_zero]
    exact (cap m mem).le
  constructor
  · intro promises i row there
    have sign : sgn (sizeStep cfg (heldBefore cfg rows i) row) = row.sign := by
      obtain ⟨x, is_, sign⟩ := promises.sign i row there
      rw [at_ there] at is_
      exact Option.some.inj is_ ▸ sign
    have capped := promises.capped _ (List.mem_of_getElem? (at_ there))
    cases i with
    | zero =>
      have zero : sgn (heldBefore cfg rows 0) = row.sign →
          sizeStep cfg (heldBefore cfg rows 0) row = heldBefore cfg rows 0 := by
        intro same
        exact sgn_eq_zero.mp (sign.trans (same.symm.trans sgn_zero))
      exact (iff_ there flat).mp ⟨sign, capped, fun same _ => zero same, fun same _ moved => absurd (zero same) moved⟩
    | succ i =>
      obtain ⟨before, there'⟩ : ∃ before, rows[i]? = some before :=
        ⟨_, List.getElem?_eq_getElem (by have := (List.getElem?_eq_some_iff.mp there).1; omega)⟩
      have held_ := at_ there'
      rw [← heldBefore_succ there'] at held_
      have sign' : sgn (heldBefore cfg rows (i + 1)) = before.sign := by
        obtain ⟨x, is_, sign⟩ := promises.sign i before there'
        rw [held_] at is_
        exact Option.some.inj is_ ▸ sign
      refine (iff_ there (promises.capped _ (List.mem_of_getElem? held_))).mp ⟨sign, capped, ?_, ?_⟩
      · intro same entry
        have run := promises.entry entry i (i + 1) (Nat.le_succ i) (List.getElem?_eq_some_iff.mp there).1
          (fun k low high => by
            rcases Nat.lt_or_eq_of_le high with lt | rfl
            · rw [show k = i by omega]
            · rw [there, there', Option.map_some, Option.map_some, ← same, sign'])
        rw [at_ there, held_] at run
        exact Option.some.inj run
      · intro same band moved
        exact promises.drifted band i before row _ _ there' there (same.symm.trans sign') held_ (at_ there) moved
  · intro careful
    have kept : ∀ i row, rows[i]? = some row → (∀ m ∈ cfg.maxLeverage, |heldBefore cfg rows i| ≤ m) ∧
        Promised cfg (heldBefore cfg rows i) row (sizeStep cfg (heldBefore cfg rows i) row) := by
      intro i
      induction i with
      | zero => exact fun row there => ⟨flat, (iff_ there flat).mpr (careful 0 row there)⟩
      | succ i ih =>
        intro row there
        obtain ⟨before, there'⟩ : ∃ before, rows[i]? = some before :=
          ⟨_, List.getElem?_eq_getElem (by have := (List.getElem?_eq_some_iff.mp there).1; omega)⟩
        have holds : ∀ m ∈ cfg.maxLeverage, |heldBefore cfg rows (i + 1)| ≤ m := by
          rw [heldBefore_succ there']
          exact (ih before there').2.capped
        exact ⟨holds, (iff_ there holds).mpr (careful (i + 1) row there)⟩
    have next : ∀ {i before row}, rows[i]? = some before → rows[i + 1]? = some row → row.sign = before.sign →
        sgn (heldBefore cfg rows (i + 1)) = row.sign := by
      intro i before row there' there same
      rw [heldBefore_succ there', (kept i before there').2.sign, same]
    refine { sign := ?_, capped := ?_, entry := ?_, drifted := ?_ }
    · exact fun i row there => ⟨_, at_ there, (kept i row there).2.sign⟩
    · intro x mem
      obtain ⟨i, is_⟩ := List.mem_iff_getElem?.mp mem
      rw [sizeLoop_getElem?] at is_
      obtain ⟨row, there, rfl⟩ := Option.map_eq_some_iff.mp is_
      exact (kept i row there).2.capped
    · intro entry i j upTo inside run
      induction j, upTo using Nat.le_induction with
      | base => rfl
      | succ j upTo ih =>
        have before : rows[j]? = some rows[j] := List.getElem?_eq_getElem (by omega)
        have there : rows[j + 1]? = some rows[j + 1] := List.getElem?_eq_getElem inside
        have same : rows[j + 1].sign = rows[j].sign := by
          have left := run (j + 1) (by omega) (Nat.le_refl _)
          have right := run j upTo (Nat.le_succ j)
          rw [there] at left
          rw [before] at right
          exact Option.some.inj (left.trans right.symm)
        rw [← ih (by omega) fun k low high => run k low (by omega), at_ there, at_ before, ← heldBefore_succ before]
        exact congrArg some ((kept (j + 1) _ there).2.entry (next before there same) entry)
    · intro band i row row' x x' there there' same is_ is_' moved
      rw [at_ there, ← heldBefore_succ there] at is_
      rw [at_ there'] at is_'
      cases is_
      obtain rfl := Option.some.inj is_'
      exact (kept (i + 1) row' there').2.drifted (next there there' same) band moved

theorem fair_of_scales {ds ss : List NpFloat} (base : 0 < cfg.base) (step : 0 ≤ cfg.step)
    (cap : ∀ m ∈ cfg.maxLeverage, 0 < m) (scale : ∀ s ∈ ss, 0 ≤ s.nanToNum 1) :
    ∀ row ∈ sizeRows cfg ds ss, row.Fair cfg := by
  intro row mem
  obtain ⟨i, is_⟩ := List.mem_iff_getElem?.mp mem
  unfold sizeRows at is_
  rw [List.getElem?_zipWith] at is_
  cases here : ds[i]? with
  | none => simp [here] at is_
  | some d =>
    cases here' : ss[i]? with
    | none => simp [here, here'] at is_
    | some s =>
      rw [here, here'] at is_
      cases is_
      refine ⟨sgn_target base step cap (scale s (List.mem_of_getElem? here')), ?_,
        fun m mem => target_le mem (cap m mem)⟩
      dsimp only
      unfold sgn
      split
      · exact .inr (.inl rfl)
      · split
        · exact .inr (.inr rfl)
        · exact .inl rfl

/-- The positions of `size` keep its promises exactly if no trade opens at a size that rounds to zero while a step, or
the base, is above the cap, and if in bands no size that is zero is taken in a trade. -/
theorem size_iff (cfg : Sizing) (direction scale : Column) {ss : List NpFloat} {out : List ℚ} (base : 0 < cfg.base)
    (step : 0 ≤ cfg.step) (cap : ∀ m ∈ cfg.maxLeverage, 0 < m)
    (reads : scales (directions direction scale).length scale = .ok ss) (fair : ∀ s ∈ ss, 0 ≤ s.nanToNum 1)
    (gives : size cfg direction scale = .ok out) :
    SizePromises cfg (sizeRows cfg (directions direction scale) ss) out ↔
      ∀ i row, (sizeRows cfg (directions direction scale) ss)[i]? = some row →
        Careful cfg (heldBefore cfg (sizeRows cfg (directions direction scale) ss) i) row := by
  unfold size at gives
  rw [reads] at gives
  cases gives
  exact sizeLoop_iff base step cap (fair_of_scales base step cap fair)

/-- Sizes in steps of a half. -/
def halves (rebalance : Rebalance) (maxLeverage : Option ℚ) : Sizing :=
  { base := 1, step := 1 / 2, rebalance := rebalance, band := 1 / 2, maxLeverage := maxLeverage }

/-- A size of a quarter rounds to zero, and the half that is taken instead is above a cap of a quarter; and in bands
a scale that falls to zero ends the trade that its direction still asks for. -/
theorem size_iff_not_careful :
    (size (halves .entry (some (1 / 4))) (.series [.fin 1]) (.number (.fin (1 / 4))) = .ok [1 / 2] ∧
      ¬SizePromises (halves .entry (some (1 / 4))) (sizeRows (halves .entry (some (1 / 4))) [.fin 1] [.fin (1 / 4)])
        [1 / 2]) ∧
    (size (halves .band none) (.series [.fin 1, .fin 1]) (.series [.fin 1, .fin 0]) = .ok [1, 0] ∧
      ¬SizePromises (halves .band none) (sizeRows (halves .band none) [.fin 1, .fin 1] [.fin 1, .fin 0]) [1, 0]) := by
  refine ⟨⟨by with_unfolding_all decide, fun promises => ?_⟩, by with_unfolding_all decide,
    fun promises => ?_⟩
  · have le := promises.capped (1 / 2) (List.mem_singleton_self _) (1 / 4) rfl
    rw [abs_of_pos (by norm_num)] at le
    norm_num at le
  · obtain ⟨x, is_, sign⟩ := promises.sign 1 _ rfl
    cases is_
    exact absurd sign (by with_unfolding_all decide)

/-- A half is taken under a cap of one. -/
theorem size_iff_half : SizePromises (halves .entry (some 1))
    (sizeRows (halves .entry (some 1)) [.fin 1] [.fin (1 / 2)]) [1 / 2] := by
  refine (size_iff (halves .entry (some 1)) (.series [.fin 1]) (.number (.fin (1 / 2)))
    (by with_unfolding_all decide) (by with_unfolding_all decide) ?_
    (rfl : scales 1 (.number (.fin (1 / 2))) = .ok [.fin (1 / 2)])
    (by with_unfolding_all decide) (by with_unfolding_all decide)).mpr ?_
  · rintro m ⟨⟩
    norm_num
  · intro i row there
    refine ⟨fun _ _ _ m mem => ?_, fun _ _ band => absurd band (by decide)⟩
    cases mem
    with_unfolding_all decide

end FreeSwarm.Sandbox
