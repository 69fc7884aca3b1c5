import FreeSwarm.Foundation.NpFloat
import FreeSwarm.Foundation.Ranking
import Mathlib.Data.List.Dedup

/-!
# Regimes

`regime_grid` labels each row by where its fields stand among the values before. How many values are looked at may be
reckoned from the bars a day of the whole frame, of which later rows are a part.
-/

namespace FreeSwarm.Sandbox

open FreeSwarm.Foundation

variable {ι : Type} [DecidableEq ι]

/-- The rows of a frame, each with its label in the index and its time in nanoseconds. -/
structure GridFrame (ι : Type) where
  rows : List (ι × Int)
  distinct : (rows.map Prod.fst).Nodup

/-- How `regime_grid` is called, except for the fields. -/
structure GridSettings where
  /-- `time` is given. -/
  timed : Bool
  windowDays : ℚ
  window : Option Int

variable (cfg : GridSettings)

/-! ## Windows -/

variable (rows : List (ι × Int)) (smooth : Int)

/-- The rows in the order in which they are labelled: `order`. -/
def GridSettings.inOrder : List (ι × Int) :=
  if cfg.timed then rows.insertionSort fun r r' => r.2 ≤ r'.2 else rows

def utcDay (t : Int) : Int := t / 86400000000000

/-- `median`. -/
def medianOf (counts : List Nat) : ℚ :=
  let sorted := counts.insertionSort (· ≤ ·)
  ((sorted.getD ((sorted.length - 1) / 2) 0 + sorted.getD (sorted.length / 2) 0 : Nat) : ℚ) / 2

def GridSettings.barsPerDay : Option ℚ :=
  let days := rows.map fun r => utcDay r.2
  if cfg.timed && !rows.isEmpty then some (medianOf (days.dedup.map fun day => days.count day)) else none

/-- `win`. -/
def GridSettings.windowOf : Nat :=
  let win : Int :=
    if cfg.window.getD 0 ≠ 0 then cfg.window.getD 0
    else
      match cfg.barsPerDay rows with
      | some bars => intOf (cfg.windowDays * bars)
      | none => 2000
  (max 20 win).toNat

/-- `min_periods`, of the ranks in a window. -/
def minPeriods (w : Nat) : Nat := max 20 (w / 4)

/-! ## Labels -/

/-- The values of a window that ends at a place. -/
def trailing {α : Type} (w : Nat) (xs : List α) (i : Nat) : List α := (xs.take (i + 1)).drop (i + 1 - w)

/-- A value that a window counts. -/
def known : NpFloat → Option ℚ
  | .fin x => some x
  | _ => none

/-- `rolling(smooth, min_periods=1).mean()`, where there is something to smooth. -/
def smoothedAt (xs : List (Option ℚ)) (i : Nat) : Option ℚ :=
  if 1 < smooth then
    let values := (trailing smooth.toNat xs i).filterMap id
    if values = [] then none else some (values.sum / values.length)
  else xs[i]?.join

def smoothed (xs : List (Option ℚ)) : List (Option ℚ) :=
  (List.range xs.length).map (smoothedAt smooth xs)

/-- `rolling(win, min_periods=...).rank(pct=True)`: equal values share their ranks. -/
def percentileAt (w : Nat) (ys : List (Option ℚ)) (i : Nat) : Option ℚ :=
  match ys[i]?.join with
  | none => none
  | some y =>
    let values := (trailing w ys i).filterMap id
    if values.length < minPeriods w then none
    else some ((values.countP (· < y) + ((values.countP (· = y) : ℚ) + 1) / 2) / values.length)

/-- `b`. -/
def bucketOf (k : Int) (pct : ℚ) : Nat := (min (max (⌈pct * k⌉ - 1) 0) (k - 1)).toNat

/-- `_bucket_names`, one of them. -/
def bucketName (k : Int) (b : Nat) : String :=
  if k = 2 then ["low", "high"].getD b ""
  else if k = 3 then ["low", "mid", "high"].getD b ""
  else "q" ++ toString (b + 1)

def partAt (w : Nat) (field : String) (k : Int) (xs : List (Option ℚ)) (i : Nat) : Option String :=
  (percentileAt w (smoothed smooth xs) i).map fun pct => field ++ ":" ++ bucketName k (bucketOf k pct)

/-- `label`, of one row. -/
def labelAt (w : Nat) (fields : List (String × Int)) (series : String → List (Option ℚ)) (i : Nat) :
    String :=
  match fields.mapM fun f => partAt smooth w f.1 f.2 (series f.1) i with
  | none => "warmup"
  | some parts => "|".intercalate parts

/-- `regime_grid`: the label of each row. -/
def regimeGrid (fields : List (String × Int)) (column : String → ι → NpFloat) (rows : List (ι × Int)) :
    Except String (List (ι × String)) :=
  if fields.isEmpty then .error "regime_grid needs at least one field"
  else
    match fields.find? fun f => f.2 < 2 with
    | some f => .error ("regime_grid: " ++ f.1 ++ " needs at least 2 buckets, got " ++ toString f.2)
    | none =>
      let order := (cfg.inOrder rows).map Prod.fst
      let series := fun field => order.map fun row => known (column field row)
      .ok (rows.map fun r => (r.1, labelAt smooth (cfg.windowOf rows) fields series (order.idxOf r.1)))

/-! ## Cuts -/

/-- The row is among the first ones in time. -/
def GridSettings.keeps (m : Nat) (row : ι) : Bool :=
  decide (row ∈ ((cfg.inOrder rows).take m).map Prod.fst)

/-- A frame without the later rows. -/
def GridFrame.cut (f : GridFrame ι) (m : Nat) : GridFrame ι where
  rows := f.rows.filter fun r => cfg.keeps f.rows m r.1
  distinct := (List.filter_sublist.map Prod.fst).nodup f.distinct

/-- The rows of a cut frame have the labels that they have in the full one, for all fields. -/
def KnowsNoFuture (f : GridFrame ι) (m : Nat) : Prop :=
  ∀ (smooth : Int) (fields : List (String × Int)) (column : String → ι → NpFloat),
    regimeGrid cfg smooth fields column (f.cut cfg m).rows =
      (regimeGrid cfg smooth fields column f.rows).map fun labels => labels.filter fun p => cfg.keeps f.rows m p.1

/-- Two windows hold as many of the first rows, and are long enough at the same rows. -/
def SameReach (w w' m : Nat) : Prop :=
  ∀ i < m, min (i + 1) w = min (i + 1) w' ∧ (minPeriods w ≤ i + 1 ↔ minPeriods w' ≤ i + 1)

/-! ## The order of a cut frame -/

section Order

variable {cfg} {f : GridFrame ι} {m : Nat}

/-- What has one of the first keys is among the first, where keys are told apart. -/
theorem filter_mem_take {α : Type} {key : α → ι} {l : List α} (distinct : (l.map key).Nodup) (m : Nat) :
    (l.filter fun a => key a ∈ (l.take m).map key) = l.take m := by
  have split : ((l.take m).map key ++ (l.drop m).map key).Nodup := by
    rwa [← List.map_append, List.take_append_drop]
  have apart := (List.nodup_append.mp split).2.2
  have first : ((l.take m).filter fun a => key a ∈ (l.take m).map key) = l.take m :=
    List.filter_eq_self.mpr fun a mem => decide_eq_true (List.mem_map_of_mem mem)
  have rest : ((l.drop m).filter fun a => key a ∈ (l.take m).map key) = [] := by
    refine List.filter_eq_nil_iff.mpr fun a mem early => ?_
    exact apart _ (of_decide_eq_true early) _ (List.mem_map_of_mem mem) rfl
  have whole := List.filter_append (p := fun a => decide (key a ∈ (l.take m).map key)) (l.take m) (l.drop m)
  rwa [List.take_append_drop, first, rest, List.append_nil] at whole

theorem perm_inOrder {κ : Type} (rows : List (κ × Int)) : (cfg.inOrder rows).Perm rows := by
  unfold GridSettings.inOrder
  split
  · exact List.perm_insertionSort _ _
  · exact List.Perm.refl _

theorem nodup_inOrder {κ : Type} (cfg : GridSettings) (f : GridFrame κ) : ((cfg.inOrder f.rows).map Prod.fst).Nodup :=
  ((perm_inOrder f.rows).map Prod.fst).nodup_iff.mpr f.distinct

theorem inOrder_cut : cfg.inOrder (f.cut cfg m).rows = (cfg.inOrder f.rows).take m := by
  have first := filter_mem_take (nodup_inOrder cfg f) m
  cases timed : cfg.timed with
  | true =>
    have : Std.Total fun r r' : ι × Int => r.2 ≤ r'.2 := ⟨fun r r' => Int.le_total r.2 r'.2⟩
    have : IsTrans (ι × Int) fun r r' => r.2 ≤ r'.2 := ⟨fun _ _ _ le le' => Int.le_trans le le'⟩
    simp only [GridFrame.cut, GridSettings.keeps, GridSettings.inOrder, timed, if_true] at first ⊢
    rw [← filter_insertionSort]
    exact first
  | false =>
    simp only [GridFrame.cut, GridSettings.keeps, GridSettings.inOrder, timed, Bool.false_eq_true, if_false] at first ⊢
    exact first

end Order

/-! ## What labels are made of -/

section Reach

variable {m i w w' : Nat} {smooth : Int} {xs : List (Option ℚ)}

theorem trailing_take {α : Type} {xs : List α} (before : i < m) : trailing w (xs.take m) i = trailing w xs i := by
  rw [trailing, trailing, List.take_take, Nat.min_eq_left before]

theorem smoothedAt_take (before : i < m) : smoothedAt smooth (xs.take m) i = smoothedAt smooth xs i := by
  rw [smoothedAt, smoothedAt, trailing_take before, List.getElem?_take_of_lt before]

theorem smoothed_take (m : Nat) : smoothed smooth (xs.take m) = (smoothed smooth xs).take m := by
  rw [smoothed, smoothed, ← List.map_take, List.take_range, List.length_take]
  refine List.map_congr_left fun i mem => smoothedAt_take ?_
  exact Nat.lt_of_lt_of_le (List.mem_range.mp mem) (Nat.min_le_left _ _)

theorem percentileAt_take (before : i < m) : percentileAt w (xs.take m) i = percentileAt w xs i := by
  rw [percentileAt, percentileAt, trailing_take before, List.getElem?_take_of_lt before]

theorem percentileAt_reach (same : SameReach w w' m) (before : i < m) :
    percentileAt w xs i = percentileAt w' xs i := by
  have window : trailing w xs i = trailing w' xs i := by
    have held := (same i before).1
    rw [trailing, trailing, show i + 1 - w = i + 1 - w' by omega]
  have enough : ((trailing w' xs i).filterMap id).length < minPeriods w ↔
      ((trailing w' xs i).filterMap id).length < minPeriods w' := by
    have upTo : ((trailing w' xs i).filterMap id).length ≤ i + 1 := by
      refine (List.length_filterMap_le _ _).trans ?_
      rw [trailing, List.length_drop, List.length_take]
      omega
    have least : 0 < minPeriods w ∧ 0 < minPeriods w' := by unfold minPeriods; omega
    generalize ((trailing w' xs i).filterMap id).length = c at upTo ⊢
    cases c with
    | zero => simp [least]
    | succ c => rw [← not_le, ← not_le, (same c (by omega)).2]
  unfold percentileAt
  rw [window]
  simp only [enough]

theorem labelAt_reach {series : String → List (Option ℚ)} (fields : List (String × Int)) (same : SameReach w w' m)
    (before : i < m) :
    labelAt smooth w fields (fun field => (series field).take m) i = labelAt smooth w' fields series i := by
  have part : ∀ f : String × Int,
      partAt smooth w f.1 f.2 ((series f.1).take m) i = partAt smooth w' f.1 f.2 (series f.1) i := by
    intro f
    rw [partAt, partAt, smoothed_take, percentileAt_take before, percentileAt_reach same before]
  unfold labelAt
  simp only [part]

end Reach

/-! ## Labels of a cut frame -/

section Cut

variable {cfg} {f : GridFrame ι} {m : Nat}

theorem idxOf_kept {row : ι} (kept : cfg.keeps f.rows m row = true) :
    (((cfg.inOrder f.rows).take m).map Prod.fst).idxOf row = ((cfg.inOrder f.rows).map Prod.fst).idxOf row ∧
      ((cfg.inOrder f.rows).map Prod.fst).idxOf row < m := by
  have mem := of_decide_eq_true kept
  have same : ((cfg.inOrder f.rows).map Prod.fst).idxOf row =
      (((cfg.inOrder f.rows).take m).map Prod.fst).idxOf row := by
    have split := congrArg (fun l => (l.map Prod.fst).idxOf row) (List.take_append_drop m (cfg.inOrder f.rows))
    rw [List.map_append, List.idxOf_append_of_mem mem] at split
    exact split.symm
  refine ⟨same.symm, same ▸ (List.idxOf_lt_length_of_mem mem).trans_le ?_⟩
  rw [List.length_map]
  exact List.length_take_le _ _

theorem knowsNoFuture_of_sameReach
    (same : SameReach (cfg.windowOf (f.cut cfg m).rows) (cfg.windowOf f.rows) m) : KnowsNoFuture cfg f m := by
  intro smooth fields column
  unfold regimeGrid
  split
  · rfl
  · split
    · rfl
    · dsimp only
      rw [inOrder_cut, Except.map, List.filter_map]
      refine congrArg Except.ok (List.map_congr_left fun r mem => ?_)
      have kept : cfg.keeps f.rows m r.1 = true := (List.mem_filter.mp mem).2
      have place := idxOf_kept kept
      rw [place.1]
      simp only [List.map_take]
      rw [labelAt_reach fields same place.2]

end Cut

/-! ## Fields that tell windows apart -/

section Apart

variable {i w w' : Nat}

/-- Some low values, some high ones, and the last ones between them. -/
def lowHighMid (low high mid : Nat) : List ℚ :=
  List.replicate low (-1) ++ (List.replicate high 1 ++ List.replicate mid 0)

theorem trailing_lowHighMid {low high mid : Nat} (rest : List ℚ) (ends : low + (high + mid) = i + 1)
    (enough : high + mid ≤ min (i + 1) w) :
    trailing w (lowHighMid low high mid ++ rest) i = lowHighMid (min (i + 1) w - (high + mid)) high mid := by
  have whole : (lowHighMid low high mid).length = i + 1 := by simp [lowHighMid, ends]
  rw [trailing, List.take_append_of_le_length whole.ge, List.take_of_length_le whole.le, lowHighMid, lowHighMid,
    List.drop_append_of_le_length (by simp; omega), List.drop_replicate]
  congr 2
  omega

theorem percentileAt_lowHighMid {low high mid : Nat} {rest : List ℚ} (ends : low + (high + mid) = i + 1)
    (some_ : 0 < mid) (enough : high + mid ≤ min (i + 1) w) :
    percentileAt w ((lowHighMid low high mid ++ rest).map some) i =
      if min (i + 1) w < minPeriods w then none
      else some ((((min (i + 1) w - (high + mid) : Nat) : ℚ) + ((mid : ℚ) + 1) / 2) / ((min (i + 1) w : Nat) : ℚ)) := by
  have last : (lowHighMid low high mid ++ rest)[i]? = some 0 := by
    have inside : i < (lowHighMid low high mid).length := by simp [lowHighMid]; omega
    rw [List.getElem?_append_left inside, lowHighMid, List.getElem?_append_right (by simp; omega),
      List.getElem?_append_right (by simp; omega), List.getElem?_replicate, if_pos (by simp; omega)]
  have window : (trailing w ((lowHighMid low high mid ++ rest).map some) i).filterMap id =
      lowHighMid (min (i + 1) w - (high + mid)) high mid := by
    rw [← trailing_lowHighMid rest ends enough, trailing, trailing, ← List.map_take, ← List.map_drop,
      List.filterMap_map]
    exact List.filterMap_some
  have length : (lowHighMid (min (i + 1) w - (high + mid)) high mid).length = min (i + 1) w := by
    simp [lowHighMid]
    omega
  have less : (lowHighMid (min (i + 1) w - (high + mid)) high mid).countP (· < 0) = min (i + 1) w - (high + mid) := by
    simp [lowHighMid, List.countP_replicate]
  have equal : (lowHighMid (min (i + 1) w - (high + mid)) high mid).countP (· = 0) = mid := by
    simp [lowHighMid, List.countP_replicate]
  rw [percentileAt, List.getElem?_map, last]
  simp only [Option.map_some, Option.join_some, window, length, less, equal]

/-- The label by one field in two buckets. -/
def shown (pct : Option ℚ) : String :=
  match pct with
  | none => "warmup"
  | some pct => "x" ++ ":" ++ bucketName 2 (bucketOf 2 pct)

theorem shown_some_ne (pct : ℚ) : shown (some pct) ≠ shown none := by
  rw [shown, shown]
  generalize bucketOf 2 pct = b
  rcases b with _ | _ | b
  · decide
  · decide
  · simp [bucketName]

theorem minPeriods_le (enough : 20 ≤ w) : minPeriods w ≤ w := by unfold minPeriods; omega

theorem enough_of_shown {n : Nat} (inside : i < n) (long : 20 ≤ w) (long' : 20 ≤ w')
    (same : ∀ values : List ℚ, values.length = n →
      shown (percentileAt w (values.map some) i) = shown (percentileAt w' (values.map some) i)) :
    minPeriods w ≤ i + 1 ↔ minPeriods w' ≤ i + 1 := by
  have at_ := same (lowHighMid i 0 1 ++ List.replicate (n - (i + 1)) 0) (by simp [lowHighMid]; omega)
  rw [percentileAt_lowHighMid (by omega) (by omega) (by omega),
    percentileAt_lowHighMid (by omega) (by omega) (by omega)] at at_
  have le := minPeriods_le long
  have le' := minPeriods_le long'
  by_cases few : min (i + 1) w < minPeriods w
  · by_cases few' : min (i + 1) w' < minPeriods w'
    · omega
    · rw [if_pos few, if_neg few'] at at_
      exact absurd at_.symm (shown_some_ne _)
  · by_cases few' : min (i + 1) w' < minPeriods w'
    · rw [if_neg few, if_pos few'] at at_
      exact absurd at_ (shown_some_ne _)
    · omega

theorem bucketOf_half : bucketOf 2 (1 / 2) = 0 := by with_unfolding_all decide

theorem bucketOf_above {pct : ℚ} (above : 1 / 2 < pct) (upTo : pct ≤ 1) : bucketOf 2 pct = 1 := by
  have ceil : ⌈pct * (2 : Int)⌉ = 2 := by
    rw [Int.ceil_eq_iff]
    constructor
    · push_cast; linarith
    · push_cast; linarith
  rw [bucketOf, ceil]
  rfl

theorem not_shown_of_lt {n : Nat} (inside : i < n) (long : 20 ≤ w) (longer : w < min (i + 1) w')
    (enough : minPeriods w' ≤ i + 1) :
    ¬∀ values : List ℚ, values.length = n →
      shown (percentileAt w (values.map some) i) = shown (percentileAt w' (values.map some) i) := by
  intro same
  have le := minPeriods_le long
  have le' := minPeriods_le (w := w') (by omega)
  -- a value in the middle of the short window, with lower ones before the window
  obtain ⟨low, mid, half, one, few⟩ : ∃ low mid, 2 * low + mid + 1 = w ∧ 0 < mid ∧ mid ≤ 2 :=
    ⟨w / 2 - 1, 1 + w % 2, by omega, by omega, by omega⟩
  have at_ := same (lowHighMid (i + 1 - w + low) (w - low - mid) mid ++ List.replicate (n - (i + 1)) 0)
    (by simp [lowHighMid]; omega)
  rw [percentileAt_lowHighMid (by omega) one (by omega), percentileAt_lowHighMid (by omega) one (by omega),
    if_neg (by omega), if_neg (by omega)] at at_
  have first : min (i + 1) w - (w - low - mid + mid) = low := by omega
  obtain ⟨more, is_⟩ : ∃ more, min (i + 1) w' = w + (more + 1) := ⟨min (i + 1) w' - w - 1, by omega⟩
  have second : min (i + 1) w' - (w - low - mid + mid) = low + (more + 1) := by omega
  rw [first, second, is_, Nat.min_eq_right (by omega)] at at_
  have whole : (w : ℚ) = 2 * low + mid + 1 := by rw [← half]; push_cast; ring
  have positive : (0 : ℚ) ≤ low := Nat.cast_nonneg low
  have positive' : (0 : ℚ) ≤ mid := Nat.cast_nonneg mid
  have positive'' : (0 : ℚ) ≤ more := Nat.cast_nonneg more
  have middle : ((low : ℚ) + ((mid : ℚ) + 1) / 2) / (w : ℚ) = 1 / 2 := by
    rw [whole, div_eq_iff (by linarith)]
    ring
  have above : 1 / 2 < (((low + (more + 1) : Nat) : ℚ) + ((mid : ℚ) + 1) / 2) / ((w + (more + 1) : Nat) : ℚ) := by
    push_cast
    rw [whole, lt_div_iff₀ (by linarith)]
    linarith
  have upTo : (((low + (more + 1) : Nat) : ℚ) + ((mid : ℚ) + 1) / 2) / ((w + (more + 1) : Nat) : ℚ) ≤ 1 := by
    push_cast
    rw [whole, div_le_one (by linarith)]
    linarith
  rw [middle, shown, shown, bucketOf_half, bucketOf_above above upTo] at at_
  exact absurd at_ (by decide)

end Apart

/-! ## Windows that reach as far -/

section Reached

variable {cfg} {f : GridFrame ι} {m : Nat}

theorem le_windowOf {κ : Type} (cfg : GridSettings) (rows : List (κ × Int)) : 20 ≤ cfg.windowOf rows := by
  unfold GridSettings.windowOf
  dsimp only
  omega

theorem map_getD_idxOf {β : Type} {l : List ι} {values : List β} (distinct : l.Nodup)
    (same : values.length = l.length) (none_ : β) : (l.map fun a => values.getD (l.idxOf a) none_) = values := by
  refine List.ext_getElem (by rw [List.length_map, same]) fun i inside inside' => ?_
  rw [List.getElem_map, distinct.idxOf_getElem, List.getD_eq_getElem?_getD, List.getElem?_eq_getElem inside',
    Option.getD_some]

theorem smoothed_zero (xs : List (Option ℚ)) : smoothed 0 xs = xs := by
  refine List.ext_getElem (by simp [smoothed]) fun i inside inside' => ?_
  simp [smoothed, smoothedAt, List.getElem?_eq_getElem inside']

theorem regimeGrid_two (column : String → ι → NpFloat) (rows : List (ι × Int)) :
    regimeGrid cfg 0 [("x", 2)] column rows = .ok (rows.map fun r => (r.1, shown (percentileAt (cfg.windowOf rows)
      (((cfg.inOrder rows).map Prod.fst).map fun row => known (column "x" row))
      (((cfg.inOrder rows).map Prod.fst).idxOf r.1)))) := by
  have label : ∀ w (series : String → List (Option ℚ)) i,
      labelAt 0 w [("x", 2)] series i = shown (percentileAt w (series "x") i) := by
    intro w series i
    rw [labelAt, List.mapM_cons, List.mapM_nil, partAt, smoothed_zero]
    cases percentileAt w (series "x") i with
    | none => rfl
    | some pct => rfl
  simp only [regimeGrid, label]
  rfl

theorem shown_of_knowsNoFuture (knows : KnowsNoFuture cfg f m) {i : Nat} (before : i < m)
    (inside : i < f.rows.length) {values : List ℚ} (same : values.length = f.rows.length) :
    shown (percentileAt (cfg.windowOf (f.cut cfg m).rows) (values.map some) i) =
      shown (percentileAt (cfg.windowOf f.rows) (values.map some) i) := by
  have length : ((cfg.inOrder f.rows).map Prod.fst).length = f.rows.length := by
    rw [List.length_map, (perm_inOrder f.rows).length_eq]
  have distinct := nodup_inOrder cfg f
  -- the field whose values in order are these
  obtain ⟨column, series⟩ : ∃ column : String → ι → NpFloat,
      (((cfg.inOrder f.rows).map Prod.fst).map fun row => known (column "x" row)) = values.map some := by
    refine ⟨fun _ row => .fin (values.getD (((cfg.inOrder f.rows).map Prod.fst).idxOf row) 0), ?_⟩
    conv_rhs => rw [← map_getD_idxOf distinct (same.trans length.symm) 0, List.map_map]
    rfl
  -- the row at the place
  have inside' : i < ((cfg.inOrder f.rows).map Prod.fst).length := length.symm ▸ inside
  have place : ((cfg.inOrder f.rows).map Prod.fst).idxOf ((cfg.inOrder f.rows).map Prod.fst)[i] = i :=
    distinct.idxOf_getElem i inside'
  have kept : cfg.keeps f.rows m ((cfg.inOrder f.rows).map Prod.fst)[i] = true := by
    refine decide_eq_true ?_
    rw [List.map_take]
    exact List.mem_of_getElem? (by rw [List.getElem?_take_of_lt before, List.getElem?_eq_getElem inside'])
  obtain ⟨r, mem, is_⟩ : ∃ r ∈ f.rows, r.1 = ((cfg.inOrder f.rows).map Prod.fst)[i] := by
    obtain ⟨r, mem, is_⟩ := List.mem_map.mp (List.getElem_mem inside')
    exact ⟨r, (perm_inOrder f.rows).mem_iff.mp mem, is_⟩
  have eq := knows 0 [("x", 2)] column
  rw [regimeGrid_two, regimeGrid_two, Except.map, List.filter_map, inOrder_cut] at eq
  have labels := List.map_inj_left.mp (Except.ok.inj eq) r (List.mem_filter.mpr ⟨mem, is_ ▸ kept⟩)
  rw [is_, (idxOf_kept kept).1, place, List.map_take, List.map_take, series, percentileAt_take before] at labels
  exact congrArg Prod.snd labels

theorem sameReach_of_knowsNoFuture (knows : KnowsNoFuture cfg f m) :
    SameReach (cfg.windowOf (f.cut cfg m).rows) (cfg.windowOf f.rows) m := by
  intro i before
  by_cases inside : i < f.rows.length
  · have same : ∀ values : List ℚ, values.length = f.rows.length →
        shown (percentileAt (cfg.windowOf (f.cut cfg m).rows) (values.map some) i) =
          shown (percentileAt (cfg.windowOf f.rows) (values.map some) i) :=
      fun values length => shown_of_knowsNoFuture knows before inside length
    have enough := enough_of_shown inside (le_windowOf cfg _) (le_windowOf cfg _) same
    refine ⟨?_, enough⟩
    have long := minPeriods_le (le_windowOf cfg (f.cut cfg m).rows)
    have long' := minPeriods_le (le_windowOf cfg f.rows)
    by_contra differ
    rcases Nat.lt_or_ge (cfg.windowOf (f.cut cfg m).rows) (cfg.windowOf f.rows) with less | more
    · exact not_shown_of_lt inside (le_windowOf cfg _) (by omega) (enough.mp (by omega)) same
    · exact not_shown_of_lt inside (le_windowOf cfg _) (by omega) (enough.mpr (by omega))
        fun values length => (same values length).symm
  · have all : (f.cut cfg m).rows = f.rows := by
      refine List.filter_eq_self.mpr fun r mem => decide_eq_true ?_
      rw [List.take_of_length_le (by rw [(perm_inOrder f.rows).length_eq]; omega)]
      exact List.mem_map_of_mem ((perm_inOrder f.rows).mem_iff.mpr mem)
    rw [all]
    exact ⟨rfl, Iff.rfl⟩

end Reached

/-- A frame is labelled without the future exactly if the window reaches as far without the later rows. -/
theorem knowsNoFuture_iff (f : GridFrame ι) (m : Nat) :
    KnowsNoFuture cfg f m ↔ SameReach (cfg.windowOf (f.cut cfg m).rows) (cfg.windowOf f.rows) m :=
  ⟨sameReach_of_knowsNoFuture, knowsNoFuture_of_sameReach⟩

/-- Twenty rows of one day, and one of the next. -/
def longDay : GridFrame Nat where
  rows := (List.range 20).map (fun i : Nat => (i, Int.ofNat i)) ++ [(20, 86400000000000)]
  distinct := by decide

/-- The last row of a day has a label that it gets from the next day. -/
theorem knowsNoFuture_iff_not_always :
    ¬∀ (cfg : GridSettings) (f : GridFrame Nat) (m : Nat), KnowsNoFuture cfg f m := by
  intro always
  have labels := always { timed := true, windowDays := 5, window := none } longDay 20 0 [("x", 2)] fun _ _ => .fin 0
  have last := congrArg (fun e => (e.toOption.getD []).getLast?) labels
  exact absurd last (by with_unfolding_all decide)

end FreeSwarm.Sandbox
