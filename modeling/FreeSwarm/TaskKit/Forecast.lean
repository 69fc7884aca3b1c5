import Mathlib.Algebra.Order.Field.Rat
import Mathlib.Data.Rat.Floor
import Mathlib.Data.Rat.Sqrt
import Mathlib.Data.Sign.Defs

/-!
# Forecasts

`forecast` judges what was predicted at a row by the value `horizon` rows later. The last rows before the holdout are
judged by values of the holdout, and these count as in-sample.
-/

namespace FreeSwarm.TaskKit

/-- A row: its time, the target and what was predicted there, where these are finite. -/
structure ForecastRow where
  t : Int
  /-- `target[i]`. -/
  y : Option ℚ
  /-- `pred[i]`. -/
  a : Option ℚ

/-- How `forecast` is called. -/
structure ForecastSettings where
  holdoutNs : Int
  horizon : Nat := 1
  minRows : Nat := 50

/-- A row that can be scored. -/
structure Judged where
  yt : ℚ
  y0 : ℚ
  ai : ℚ

/-! ## Segments -/

/-- `round`, to even where it is half way. -/
def roundTo (digits : Nat) (x : ℚ) : ℚ :=
  let n := x * 10 ^ digits
  let down := ⌊n⌋
  let up := n - down > 1 / 2 ∨ n - down = 1 / 2 ∧ down % 2 = 1
  ((if up then down + 1 else down : Int) : ℚ) / 10 ^ digits

inductive ForecastSegment where
  /-- `only … scorable rows`. -/
  | tooFew (rows : Nat)
  | scored (score : Option ℚ) (rows : Nat) (rmse rmseNaive : ℚ) (directionAccuracy : Option ℚ)
  deriving DecidableEq

def ForecastSegment.rows : ForecastSegment → Nat
  | tooFew rows => rows
  | scored _ rows _ _ _ => rows

variable (sqrt : ℚ → ℚ) (cfg : ForecastSettings)

/-- A segment of the rows that can be scored. -/
def segmentOf (k : List Judged) : ForecastSegment :=
  if k.length < cfg.minRows then .tooFew k.length
  else
    let sse := (k.map fun j => (j.yt - j.ai) ^ 2).sum
    let sse0 := (k.map fun j => (j.yt - j.y0) ^ 2).sum
    let nz := k.filter fun j => SignType.sign (j.yt - j.y0) ≠ 0
    let right := nz.filter fun j => SignType.sign (j.ai - j.y0) = SignType.sign (j.yt - j.y0)
    let dirAcc := if nz = [] then none else some (roundTo 4 (right.length / nz.length))
    .scored (if sse0 > 0 then some (roundTo 6 (1 - sse / sse0)) else none) k.length
      (roundTo 6 (sqrt (sse / k.length))) (roundTo 6 (sqrt (sse0 / k.length))) dirAcc

def judge (r : ForecastRow × ForecastRow) : Int × Option Judged :=
  (r.1.t, do
    let yt ← r.2.y
    let y0 ← r.1.y
    let ai ← r.1.a
    pure ⟨yt, y0, ai⟩)

variable (rows : List ForecastRow)

/-- The rows with a value `horizon` rows later, each with what it is judged by. -/
def judgedRows : List (Int × Option Judged) := (rows.zip (rows.drop cfg.horizon)).map judge

def segmentIn (inside : Int → Bool) (rows : List (Int × Option Judged)) : Option ForecastSegment :=
  let m := rows.filter fun r => inside r.1
  if m = [] then none else some (segmentOf sqrt cfg (m.filterMap Prod.snd))

/-- What is reported, but for the curve. -/
structure Forecasted where
  /-- `segments["in_sample"]`. -/
  inSample : Option ForecastSegment
  /-- `segments["holdout"]`. -/
  holdout : Option ForecastSegment

/-- `diagnostics` of a segment. -/
def diagnosticsOf : Option ForecastSegment → Option (ℚ × ℚ × Option ℚ)
  | some (.scored _ _ rmse naive direction) => some (rmse, naive, direction)
  | _ => none

/-- The values that `notes` tells; without a segment it is empty. -/
def Forecasted.notes (result : Forecasted) : Option (Option ℚ × Option ℚ × Option ℚ × Option ℚ) :=
  result.inSample.map fun
    | .tooFew _ => (none, none, none, none)
    | .scored score _ rmse naive direction => (score, some rmse, some naive, direction)

/-- `forecast`; nothing is reported when there are not enough rows for the horizon. -/
def forecast : Option Forecasted :=
  if rows.length < cfg.horizon + 2 then none
  else
    some ⟨segmentIn sqrt cfg (fun t => decide (t < cfg.holdoutNs)) (judgedRows cfg rows),
      segmentIn sqrt cfg (fun t => decide (t ≥ cfg.holdoutNs)) (judgedRows cfg rows)⟩

/-- What is reported of the in-sample rows: the segment, the diagnostics and the notes. -/
def inSampleReport :
    Option (Option ForecastSegment × Option (ℚ × ℚ × Option ℚ) × Option (Option ℚ × Option ℚ × Option ℚ × Option ℚ)) :=
  (forecast sqrt cfg rows).map fun result => (result.inSample, diagnosticsOf result.inSample, result.notes)

/-! ## What the in-sample rows are judged by -/

section Judging

variable {sqrt cfg} {pre post : List ForecastRow}

def scoredRows (cfg : ForecastSettings) (rows : List (Int × Option Judged)) : List Judged :=
  (rows.filter fun r => decide (r.1 < cfg.holdoutNs)).filterMap Prod.snd

theorem rows_segmentOf (k : List Judged) : (segmentOf sqrt cfg k).rows = k.length := by
  rw [segmentOf]
  split_ifs <;> rfl

/-- Rows before the holdout are judged by rows before it, but for the last `horizon`. -/
theorem judgedRows_append (enough : cfg.horizon ≤ pre.length) :
    judgedRows cfg (pre ++ post) =
      ((pre.take (pre.length - cfg.horizon)).zip (pre.drop cfg.horizon)).map judge ++
        ((pre.drop (pre.length - cfg.horizon) ++ post).zip post).map judge := by
  have length : (pre.take (pre.length - cfg.horizon)).length = (pre.drop cfg.horizon).length := by
    rw [List.length_take, List.length_drop]
    omega
  rw [← List.map_append, ← List.zip_append length, ← List.append_assoc, List.take_append_drop, judgedRows,
    List.drop_append_of_le_length enough]

theorem inSampleReport_append (sqrt : ℚ → ℚ) (post : List ForecastRow) (before : ∀ r ∈ pre, r.t < cfg.holdoutNs) (enough : cfg.horizon + 2 ≤ pre.length) :
    ∃ segment, segment = segmentOf sqrt cfg (scoredRows cfg (judgedRows cfg (pre ++ post))) ∧
      inSampleReport sqrt cfg (pre ++ post) = some (some segment, diagnosticsOf (some segment),
        Forecasted.notes ⟨some segment, none⟩) := by
  refine ⟨_, rfl, ?_⟩
  have long : ¬ (pre ++ post).length < cfg.horizon + 2 := by
    rw [List.length_append]
    omega
  have some_ : (judgedRows cfg (pre ++ post)).filter (fun r => decide (r.1 < cfg.holdoutNs)) ≠ [] := by
    obtain ⟨r, rest, rfl⟩ := List.exists_cons_of_length_pos (l := pre) (by omega)
    obtain ⟨r', rest', later⟩ := List.exists_cons_of_length_pos
      (l := (r :: rest ++ post).drop cfg.horizon) (by rw [List.length_drop]; omega)
    refine List.ne_nil_of_mem (a := judge (r, r')) (List.mem_filter.mpr ⟨List.mem_map.mpr ⟨(r, r'), ?_, rfl⟩, ?_⟩)
    · rw [later, List.cons_append, List.zip_cons_cons]
      exact List.mem_cons_self
    · exact decide_eq_true (before r List.mem_cons_self)
  simp only [inSampleReport, forecast, if_neg long, segmentIn, if_neg some_, Option.map_some]
  rfl

theorem scoredRows_append (enough : cfg.horizon ≤ pre.length) :
    scoredRows cfg (judgedRows cfg (pre ++ post)) =
      scoredRows cfg (((pre.take (pre.length - cfg.horizon)).zip (pre.drop cfg.horizon)).map judge) ++
        scoredRows cfg (((pre.drop (pre.length - cfg.horizon) ++ post).zip post).map judge) := by
  rw [judgedRows_append enough, scoredRows, List.filter_append, List.filterMap_append]
  rfl

theorem scoredRows_eq_nil (none_ : ∀ r ∈ pre, r.y = none ∨ r.a = none) (after : ∀ r ∈ post, cfg.holdoutNs ≤ r.t) :
    scoredRows cfg (((pre ++ post).zip post).map judge) = [] := by
  rw [scoredRows, List.filterMap_eq_nil_iff]
  intro r mem
  obtain ⟨mem, inside⟩ := List.mem_filter.mp mem
  obtain ⟨⟨r, r'⟩, both, rfl⟩ := List.mem_map.mp mem
  rcases List.mem_append.mp (List.of_mem_zip both).1 with early | late
  · rcases none_ r early with gone | gone
    · cases found : r'.y <;> simp [judge, gone, found]
    · cases found : r'.y <;> cases found' : r.y <;> simp [judge, gone, found, found']
  · exact absurd (of_decide_eq_true inside) (not_lt.mpr (after r late))

theorem scoredRows_ne_nil {r : ForecastRow} (mem : r ∈ pre) (before : r.t < cfg.holdoutNs) {y0 ai : ℚ}
    (value : r.y = some y0) (forecast : r.a = some ai) {q : ForecastRow} {yt : ℚ} (there : q.y = some yt) :
    scoredRows cfg (((pre ++ List.replicate pre.length q).zip (List.replicate pre.length q)).map judge) ≠ [] := by
  obtain ⟨i, room, rfl⟩ := List.mem_iff_getElem.mp mem
  refine List.ne_nil_of_mem (a := ⟨yt, y0, ai⟩) (List.mem_filterMap.mpr ⟨(pre[i].t, some ⟨yt, y0, ai⟩), ?_, rfl⟩)
  refine List.mem_filter.mpr ⟨List.mem_map.mpr ⟨(pre[i], q), ?_, by simp [judge, value, forecast, there]⟩, by simpa⟩
  exact List.mem_iff_getElem.mpr ⟨i, by simp [room], by simp [room]⟩

end Judging

/-! ## The holdout and the in-sample numbers -/

/-- What is reported of the in-sample rows does not depend on the holdout exactly if there are enough rows before it and
none of the last `horizon` of them has both a value and a forecast. -/
theorem forecast_inSample_iff {pre : List ForecastRow} (before : ∀ r ∈ pre, r.t < cfg.holdoutNs) :
    (∀ post post' : List ForecastRow, (∀ r ∈ post, cfg.holdoutNs ≤ r.t) → (∀ r ∈ post', cfg.holdoutNs ≤ r.t) →
      inSampleReport sqrt cfg (pre ++ post) = inSampleReport sqrt cfg (pre ++ post')) ↔
    cfg.horizon + 2 ≤ pre.length ∧ ∀ r ∈ pre.drop (pre.length - cfg.horizon), r.y = none ∨ r.a = none := by
  constructor
  · intro same
    have enough : cfg.horizon + 2 ≤ pre.length := by
      by_contra short
      have less : pre.length < cfg.horizon + 2 := by omega
      have reports := same [] (List.replicate (cfg.horizon + 2) ⟨cfg.holdoutNs, none, none⟩) (by simp) (by simp)
      simp [inSampleReport, forecast, less] at reports
    refine ⟨enough, fun r mem => ?_⟩
    by_contra both
    obtain ⟨value, predicted⟩ := not_or.mp both
    obtain ⟨y0, value⟩ := Option.ne_none_iff_exists'.mp value
    obtain ⟨ai, predicted⟩ := Option.ne_none_iff_exists'.mp predicted
    let q : ForecastRow := ⟨cfg.holdoutNs, some 0, none⟩
    obtain ⟨back, here⟩ : ∃ back, pre.drop (pre.length - cfg.horizon) = back := ⟨_, rfl⟩
    have reports := same [] (List.replicate back.length q) (by simp) (by simp [q])
    obtain ⟨segment, seg_, report⟩ := inSampleReport_append sqrt [] before enough
    obtain ⟨segment', seg', report'⟩ :=
      inSampleReport_append sqrt (List.replicate back.length q) before enough
    rw [report, report'] at reports
    have rows : segment.rows = segment'.rows := by simp_all
    rw [seg_, seg', rows_segmentOf, rows_segmentOf, scoredRows_append (by omega), scoredRows_append (by omega),
      List.length_append, List.length_append, here] at rows
    have none_ : scoredRows cfg (((back ++ List.replicate back.length q).zip
        (List.replicate back.length q)).map judge) = [] := by
      have zero : (scoredRows cfg (((back ++ []).zip []).map judge)).length = 0 := by simp [scoredRows]
      exact List.length_eq_zero_iff.mp (by omega)
    exact scoredRows_ne_nil (here ▸ mem) (before r (List.mem_of_mem_drop mem)) value predicted (q := q) rfl none_
  · rintro ⟨enough, none_⟩ post post' after after'
    obtain ⟨segment, seg_, report⟩ := inSampleReport_append sqrt post before enough
    obtain ⟨segment', seg', report'⟩ := inSampleReport_append sqrt post' before enough
    have same : segment = segment' := by
      rw [seg_, seg', scoredRows_append (by omega), scoredRows_append (by omega), scoredRows_eq_nil none_ after,
        scoredRows_eq_nil none_ after']
    rw [report, report', same]

def beforeHoldout : List ForecastRow := [⟨1, some 1, some 2⟩, ⟨2, some 2, some 4⟩, ⟨3, some 4, some 5⟩]

/-- The last of them has no forecast. -/
theorem forecast_inSample_open :
    inSampleReport Rat.sqrt ⟨4, 1, 1⟩
        ([⟨1, some 1, some 2⟩, ⟨2, some 2, some 4⟩, ⟨3, some 4, none⟩] ++ [⟨4, some 5, none⟩]) =
      inSampleReport Rat.sqrt ⟨4, 1, 1⟩
        ([⟨1, some 1, some 2⟩, ⟨2, some 2, some 4⟩, ⟨3, some 4, none⟩] ++ [⟨4, none, none⟩]) :=
  (forecast_inSample_iff Rat.sqrt ⟨4, 1, 1⟩ (by simp)).mpr ⟨by decide, by simp⟩ _ _ (by simp) (by simp)

/-- The first value of the holdout changes what is reported of the in-sample rows. -/
theorem forecast_inSample_differs :
    inSampleReport Rat.sqrt ⟨4, 1, 1⟩ (beforeHoldout ++ [⟨4, some 5, none⟩]) ≠
      inSampleReport Rat.sqrt ⟨4, 1, 1⟩ (beforeHoldout ++ [⟨4, none, none⟩]) := by
  intro same
  have rows := congrArg (fun report => (report.bind Prod.fst).map ForecastSegment.rows) same
  revert rows
  with_unfolding_all decide

end FreeSwarm.TaskKit
