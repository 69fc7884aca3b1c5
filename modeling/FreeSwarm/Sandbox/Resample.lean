import FreeSwarm.Foundation.Distinct
import FreeSwarm.Foundation.Groups
import Mathlib.Algebra.GroupWithZero.Nat
import Mathlib.Algebra.Order.Field.Rat
import Mathlib.Data.List.Induction
import Mathlib.Data.List.ReduceOption

/-!
# Bars of another timeframe

`resample` stamps a bar with the last row in it, and `align` carries what was computed of the bars back to the rows.
What a row gets is made of bars that end at or before it. Whether its own bar is one of them depends on the next
row.
-/

namespace FreeSwarm.Sandbox.Resample

open FreeSwarm.Foundation

/-! ## Model -/

/-- `sort_values`: its default sort leaves rows of one time in any order. -/
structure Sorter where
  run : {α : Type} → (α → Int) → List α → List α
  perm : ∀ {α : Type} (time : α → Int) (l : List α), (run time l).Perm l
  sorted : ∀ {α : Type} (time : α → Int) (l : List α), (run time l).Pairwise fun a b => time a ≤ time b

/-- Rows of one time stay in order. -/
def Sorter.Stable (s : Sorter) : Prop :=
  ∀ {α : Type} (time : α → Int) (l : List α) (u : Int),
    (s.run time l).filter (fun a => time a = u) = l.filter fun a => time a = u

structure Column where
  name : List Char
  isNumeric : Bool

/-- A row: its time in nanoseconds, `none` for `NaT`, and its cells, `none` for `NaN`. -/
structure Row where
  time : Option Int
  cells : List (Option ℚ)

/-- A frame without its time column. -/
structure Frame where
  columns : List Column
  rows : List Row

inductive How where
  | first | max | min | last | sum

def OHLC : List (List Char × How) :=
  [("open".toList, .first), ("high".toList, .max), ("low".toList, .min), ("close".toList, .last),
    ("volume".toList, .sum)]

def Column.how (c : Column) : Option How :=
  match OHLC.lookup (c.name.map Char.toLower) with
  | some how => some how
  | none => if c.isNumeric then some .last else none

/-- An aggregate skips what is missing. -/
def How.of (how : How) (cells : List (Option ℚ)) : Option ℚ :=
  match how with
  | first => cells.reduceOption.head?
  | max => cells.reduceOption.max?
  | min => cells.reduceOption.min?
  | last => cells.reduceOption.getLast?
  | sum => some cells.reduceOption.sum

structure Bar where
  time : Int
  cells : List (Option ℚ)
  barRows : Nat
  deriving DecidableEq

abbrev Timed := Int × List (Option ℚ)

/-- The rows with a time: `sort_values` puts the others last, and `groupby` drops them. -/
def timed (rows : List Row) : List Timed := rows.filterMap fun row => row.time.map fun t => (t, row.cells)

/-- `t.dt.floor(rule)`. -/
def floor (rule : Nat) (t : Int) : Int := t - t % rule

def barOf (columns : List Column) (group : List Timed) : Bar where
  time := ((group.map Prod.fst).getLast?).getD 0
  cells := (List.range columns.length).filterMap fun i =>
    (columns[i]?.bind Column.how).map fun how => how.of (group.map fun row => (row.2[i]?).getD none)
  barRows := group.length

/-- `d.groupby(bucket)`, for sorted rows. -/
def groupby (rule : Nat) (d : List Timed) : List (List Timed) :=
  (distinct (d.map fun row => floor rule row.1)).map fun start => d.filter fun row => floor rule row.1 = start

variable (s : Sorter) (rule : Nat)

def groups (rows : List Row) : List (List Timed) := groupby rule (s.run Prod.fst (timed rows))

def resample (frame : Frame) : List Bar := (groups s rule frame.rows).map (barOf frame.columns)

/-- `merge_asof`, backward: the last value whose stamp is at or before a time. -/
def asof (src : List (Int × Option ℚ)) (t : Int) : Option ℚ :=
  ((src.filter fun pair => pair.1 ≤ t).getLast?).bind Prod.snd

/-- `align`: the values at the base times, unless one of these is missing. -/
def align (values : List (Option ℚ)) (valueTimes : List Int) (baseTimes : List (Option Int)) :
    Option (List (Int × ℚ)) :=
  if none ∈ baseTimes then none
  else
    let src := s.run Prod.fst (valueTimes.zip values)
    some (baseTimes.reduceOption.map fun t => (t, (asof src t).getD 0))

variable (f : List Bar → Option ℚ)

def upTo (bars : List Bar) : List (Option ℚ) :=
  (List.range bars.length).map fun i => f (bars.take (i + 1))

/-- The values of the bars, back at the base rows. -/
def aligned (frame : Frame) : Option (List (Int × ℚ)) :=
  let bars := resample s rule frame
  align s (upTo f bars) (bars.map Bar.time) (frame.rows.map Row.time)

def carry (bars : List Bar) : ℚ := if bars = [] then 0 else (f bars).getD 0

/-! ## Sorting -/

variable {α : Type} {time : α → Int} {l l' : List α}

theorem mem_iff_of_filter
    (same : ∀ u, l.filter (fun a => time a = u) = l'.filter fun a => time a = u) (a : α) : a ∈ l ↔ a ∈ l' := by
  have iff : a ∈ l.filter (fun b => time b = time a) ↔ a ∈ l'.filter fun b => time b = time a := by rw [same]
  simpa [List.mem_filter] using iff

theorem eq_of_sorted (sorted : l.Pairwise fun a b => time a ≤ time b)
    (sorted' : l'.Pairwise fun a b => time a ≤ time b)
    (same : ∀ u, l.filter (fun a => time a = u) = l'.filter fun a => time a = u) : l = l' := by
  have mem_iff := mem_iff_of_filter same
  induction l generalizing l' with
  | nil => exact (List.eq_nil_iff_forall_not_mem.mpr fun a mem => List.not_mem_nil ((mem_iff a).mpr mem)).symm
  | cons a l ih =>
    cases l' with
    | nil => exact absurd ((mem_iff a).mp List.mem_cons_self) List.not_mem_nil
    | cons b l' =>
      obtain ⟨least, tail⟩ := List.pairwise_cons.mp sorted
      obtain ⟨least', tail'⟩ := List.pairwise_cons.mp sorted'
      have le : time a ≤ time b := by
        rcases List.mem_cons.mp ((mem_iff b).mpr List.mem_cons_self) with rfl | mem
        exacts [le_rfl, least b mem]
      have le' : time b ≤ time a := by
        rcases List.mem_cons.mp ((mem_iff a).mp List.mem_cons_self) with rfl | mem
        exacts [le_rfl, least' a mem]
      have at_ := same (time a)
      rw [List.filter_cons_of_pos (by simp), List.filter_cons_of_pos (by simp [le_antisymm le' le])] at at_
      obtain rfl : a = b := (List.cons.inj at_).1
      have rest (u : Int) : l.filter (fun a => time a = u) = l'.filter fun a => time a = u := by
        have both := same u
        by_cases is_ : time a = u
        · rw [List.filter_cons_of_pos (by simpa), List.filter_cons_of_pos (by simpa)] at both
          exact (List.cons.inj both).2
        · rwa [List.filter_cons_of_neg (by simpa), List.filter_cons_of_neg (by simpa)] at both
      exact congrArg (a :: ·) (ih tail tail' rest (mem_iff_of_filter rest))

/-- Rows of one time stay in order as well if no two rows have the same time. -/
theorem run_filter {l : List α} (settled : s.Stable ∨ (l.map time).Nodup) (u : Int) :
    (s.run time l).filter (fun a => time a = u) = l.filter fun a => time a = u := by
  rcases settled with stable | nodup
  · exact stable time l u
  · have perm := (s.perm time l).filter fun a => time a = u
    have apart : (l.filter fun a => time a = u).Pairwise fun a b => time a ≠ time b :=
      (List.pairwise_map.mp nodup).filter _
    have all : ∀ a ∈ l.filter (fun a => time a = u), time a = u := fun a mem =>
      of_decide_eq_true (List.mem_filter.mp mem).2
    cases there : l.filter fun a => time a = u with
    | nil => rwa [there, List.perm_nil] at perm
    | cons a rest =>
      rw [there] at perm apart all
      cases rest with
      | nil => rwa [List.perm_singleton] at perm
      | cons b rest =>
        have ne := (List.pairwise_cons.mp apart).1 b List.mem_cons_self
        rw [all a List.mem_cons_self, all b (by simp)] at ne
        exact absurd rfl ne

theorem run_before {u : Int}
    (settled : s.Stable ∨ (l.map time).Nodup) (settled' : s.Stable ∨ (l'.map time).Nodup)
    (same : l.filter (fun a => time a < u) = l'.filter fun a => time a < u) :
    (s.run time l).filter (fun a => time a < u) = (s.run time l').filter fun a => time a < u := by
  refine eq_of_sorted ((s.sorted time l).filter _) ((s.sorted time l').filter _) fun v => ?_
  have swap (l : List α) : (l.filter fun a => time a < u).filter (fun a => time a = v) =
      (l.filter fun a => time a = v).filter fun a => time a < u := by
    rw [List.filter_filter, List.filter_filter]
    exact List.filter_congr fun a _ => Bool.and_comm _ _
  rw [swap, swap, run_filter s settled, run_filter s settled', ← swap, ← swap, same]

/-! ## Groups -/

theorem floor_mono {t u : Int} (le : t ≤ u) : floor rule t ≤ floor rule u := by
  have start (v : Int) : floor rule v = rule * (v / rule) := by
    have parts := Int.mul_ediv_add_emod v rule
    unfold floor
    omega
  rw [start, start]
  rcases Nat.eq_zero_or_pos rule with rfl | long
  · simp
  · exact Int.mul_le_mul_of_nonneg_left (Int.ediv_le_ediv (by omega) le) (by omega)

theorem groups_perm (rows : List Row) : (groups s rule rows).flatten.Perm (timed rows) := by
  refine (flatten_groups_perm (distinct_nodup _) _ fun row mem => ?_).trans
    (s.perm Prod.fst _)
  exact mem_distinct.mpr (List.mem_map_of_mem mem)

theorem barOf_time (columns : List Column) {group : List Timed} (sorted : group.Pairwise fun a b => a.1 ≤ b.1)
    {row : Timed} (mem : row ∈ group) :
    row.1 ≤ (barOf columns group).time ∧ ∃ last ∈ group, (barOf columns group).time = last.1 := by
  rcases List.eq_nil_or_concat group with rfl | ⟨front, last, rfl⟩
  · exact absurd mem List.not_mem_nil
  · rw [List.concat_eq_append] at sorted mem ⊢
    have stamp : (barOf columns (front ++ [last])).time = last.1 := by simp [barOf]
    refine ⟨?_, last, by simp, stamp⟩
    rw [stamp]
    rcases List.mem_append.mp mem with mem | mem
    · exact (List.pairwise_append.mp sorted).2.2 row mem last (by simp)
    · rw [List.mem_singleton.mp mem]

section Sorted

variable {rule} {d : List Timed} (sorted : d.Pairwise fun a b => a.1 ≤ b.1) (columns : List Column)
include sorted

theorem floor_time {start : Int} (key : start ∈ distinct (d.map fun row => floor rule row.1)) :
    floor rule (barOf columns (d.filter fun row => floor rule row.1 = start)).time = start := by
  obtain ⟨row, mem, is_⟩ := List.mem_map.mp (mem_distinct.mp key)
  have inside : row ∈ d.filter fun row => floor rule row.1 = start :=
    List.mem_filter.mpr ⟨mem, decide_eq_true is_⟩
  obtain ⟨-, last, mem, stamp⟩ := barOf_time columns (sorted.filter _) inside
  rw [stamp]
  exact of_decide_eq_true (List.mem_filter.mp mem).2

theorem stamps_sorted : ((groupby rule d).map (barOf columns)).Pairwise fun a b => a.time < b.time := by
  rw [groupby, List.map_map, List.pairwise_map]
  refine (distinct_sorted _).imp_of_mem fun {start start'} key key' lt => ?_
  by_contra le
  have back := floor_mono rule (not_lt.mp le)
  rw [Function.comp_apply, Function.comp_apply, floor_time sorted columns key, floor_time sorted columns key'] at back
  exact absurd lt (not_lt.mpr back)

theorem bars_before {T t : Int} (there : ∃ row ∈ d, row.1 = T) (before : t < T) :
    ((groupby rule d).map (barOf columns)).filter (fun bar => bar.time ≤ t) =
      ((distinct (((d.filter fun row => row.1 < T).map fun row => floor rule row.1).filter (· < floor rule T))).map
        fun start => barOf columns ((d.filter fun row => row.1 < T).filter fun row => floor rule row.1 = start)).filter
          fun bar => bar.time ≤ t := by
  have early (row : Timed) (lt : floor rule row.1 < floor rule T) : row.1 < T :=
    lt_of_not_ge fun le => absurd lt (not_lt.mpr (floor_mono rule le))
  have keys : ((d.filter fun row => row.1 < T).map fun row => floor rule row.1).filter (· < floor rule T) =
      (d.map fun row => floor rule row.1).filter (· < floor rule T) := by
    rw [List.filter_map, List.filter_map, List.filter_filter]
    refine congrArg _ (List.filter_congr fun row _ => ?_)
    simpa using early row
  have late : ∀ start ∈ distinct (d.map fun row => floor rule row.1), ¬ start < floor rule T →
      ¬ (barOf columns (d.filter fun row => floor rule row.1 = start)).time ≤ t := by
    intro start key le
    rcases (not_lt.mp le).lt_or_eq with lt | rfl
    · intro stamp
      have back := floor_mono rule (stamp.trans before.le)
      rw [floor_time sorted columns key] at back
      exact absurd lt (not_lt.mpr back)
    · obtain ⟨row, mem, rfl⟩ := there
      have inside : row ∈ d.filter fun row' => floor rule row'.1 = floor rule row.1 :=
        List.mem_filter.mpr ⟨mem, decide_eq_true rfl⟩
      exact not_le.mpr (before.trans_le (barOf_time columns (sorted.filter _) inside).1)
  have own (start : Int) (lt : start < floor rule T) :
      (d.filter fun row => row.1 < T).filter (fun row => floor rule row.1 = start) =
        d.filter fun row => floor rule row.1 = start := by
    rw [List.filter_filter]
    refine List.filter_congr fun row _ => ?_
    have inside : floor rule row.1 = start → row.1 < T := fun is_ => early row (is_ ▸ lt)
    simpa using inside
  calc ((groupby rule d).map (barOf columns)).filter (fun bar => bar.time ≤ t)
      = (((distinct (d.map fun row => floor rule row.1)).filter (· < floor rule T)).map fun start =>
          barOf columns (d.filter fun row => floor rule row.1 = start)).filter fun bar => bar.time ≤ t := by
        rw [groupby, List.map_map, List.filter_map, List.filter_map, List.filter_filter]
        refine congrArg _ (List.filter_congr fun start key => ?_)
        simpa using fun stamp => not_imp_comm.mp (late start key) (not_not.mpr stamp)
    _ = _ := by
        rw [keys, distinct_filter]
        refine congrArg _ (List.map_congr_left fun start mem => ?_)
        rw [own start (of_decide_eq_true (List.mem_filter.mp mem).2)]

end Sorted

/-! ## Values -/

/-- A base row gets the value of the last bar that is stamped at or before it. -/
theorem asof_upTo (f : List Bar → Option ℚ) {bars : List Bar} (sorted : bars.Pairwise fun a b => a.time < b.time)
    (t : Int) :
    (asof (s.run Prod.fst ((bars.map Bar.time).zip (upTo f bars))) t).getD 0 =
      carry f (bars.filter fun bar => bar.time ≤ t) := by
  have length (bars : List Bar) : (bars.map Bar.time).length = (upTo f bars).length := by simp [upTo]
  have times (bars : List Bar) : ((bars.map Bar.time).zip (upTo f bars)).map Prod.fst = bars.map Bar.time :=
    List.map_fst_zip (length bars).le
  have same : s.run Prod.fst ((bars.map Bar.time).zip (upTo f bars)) = (bars.map Bar.time).zip (upTo f bars) := by
    refine eq_of_sorted (s.sorted _ _) ?_ (run_filter s (.inr ?_))
    · rw [← List.pairwise_map (f := Prod.fst) (R := (· ≤ ·)), times, List.pairwise_map]
      exact sorted.imp fun lt => lt.le
    · rw [times]
      exact (List.pairwise_map.mpr sorted).imp fun lt => ne_of_lt lt
  rw [same]
  clear same
  induction bars using List.reverseRecOn with
  | nil => simp [asof, carry]
  | append_singleton bars bar ih =>
    obtain ⟨front, -, earlier⟩ := List.pairwise_append.mp sorted
    have split : ((bars ++ [bar]).map Bar.time).zip (upTo f (bars ++ [bar])) =
        (bars.map Bar.time).zip (upTo f bars) ++ [(bar.time, f (bars ++ [bar]))] := by
      have values : upTo f (bars ++ [bar]) = upTo f bars ++ [f (bars ++ [bar])] := by
        unfold upTo
        rw [List.length_append, List.length_singleton, List.range_succ, List.map_append, List.map_singleton,
          List.take_of_length_le (by simp)]
        refine congrArg (· ++ _) (List.map_congr_left fun i mem => ?_)
        rw [List.take_append_of_le_length (List.mem_range.mp mem)]
      rw [values, List.map_append, List.zip_append (length bars), List.map_singleton, List.zip_cons_cons,
        List.zip_nil_left]
    have back := ih front
    rw [split]
    by_cases stamped : bar.time ≤ t
    · have all : bars.filter (fun bar => bar.time ≤ t) = bars := List.filter_eq_self.mpr fun other mem =>
        decide_eq_true ((earlier other mem bar (List.mem_singleton_self _)).le.trans stamped)
      simp [asof, carry, List.filter_append, stamped, all]
    · have out : (bars ++ [bar]).filter (fun bar => bar.time ≤ t) = bars.filter fun bar => bar.time ≤ t := by
        simp [List.filter_append, stamped]
      rw [out]
      simpa [asof, List.filter_append, stamped] using back

def valueAt (f : List Bar → Option ℚ) (frame : Frame) (t : Int) : ℚ :=
  carry f ((resample s rule frame).filter fun bar => bar.time ≤ t)

variable {s rule} {f : List Bar → Option ℚ} {frame frame' : Frame} {out : List (Int × ℚ)}

theorem aligned_eq_some : aligned s rule f frame = some out ↔
    none ∉ frame.rows.map Row.time ∧
      out = (frame.rows.map Row.time).reduceOption.map fun t => (t, valueAt s rule f frame t) := by
  have stamps : (resample s rule frame).Pairwise fun a b => a.time < b.time :=
    stamps_sorted (s.sorted Prod.fst (timed frame.rows)) frame.columns
  unfold aligned align
  by_cases missing : none ∈ frame.rows.map Row.time
  · simp [missing]
  · rw [if_neg missing, Option.some.injEq, eq_comm]
    simp only [missing, not_false_iff, true_and]
    refine Eq.congr_right (List.map_congr_left fun t _ => ?_)
    exact congrArg _ (asof_upTo s f stamps t)

theorem mem_aligned (runs : aligned s rule f frame = some out) {pair : Int × ℚ} :
    pair ∈ out ↔ some pair.1 ∈ frame.rows.map Row.time ∧ pair.2 = valueAt s rule f frame pair.1 := by
  rw [(aligned_eq_some.mp runs).2, List.mem_map]
  simp only [List.reduceOption_mem_iff]
  constructor
  · rintro ⟨t, mem, rfl⟩
    exact ⟨mem, rfl⟩
  · rintro ⟨mem, same⟩
    exact ⟨pair.1, mem, Prod.ext rfl same.symm⟩

theorem map_some_reduceOption {α : Type} {l : List (Option α)} (whole : none ∉ l) : l.reduceOption.map some = l := by
  induction l with
  | nil => rfl
  | cons a l ih =>
    cases a with
    | none => exact absurd List.mem_cons_self whole
    | some a => rw [List.reduceOption_cons_of_some, List.map_cons, ih fun mem => whole (List.mem_cons_of_mem _ mem)]

theorem timed_times (rows : List Row) : (timed rows).map Prod.fst = (rows.map Row.time).reduceOption := by
  rw [timed, List.reduceOption, List.map_filterMap, List.filterMap_map]
  refine congrArg (List.filterMap · rows) (funext fun row => ?_)
  cases time : row.time <;> simp [time]

theorem valueAt_eq {T t : Int} (columns : frame.columns = frame'.columns)
    (settled : s.Stable ∨ ((timed frame.rows).map Prod.fst).Nodup)
    (settled' : s.Stable ∨ ((timed frame'.rows).map Prod.fst).Nodup)
    (there : T ∈ (timed frame.rows).map Prod.fst) (there' : T ∈ (timed frame'.rows).map Prod.fst)
    (same : (timed frame.rows).filter (fun row => row.1 < T) = (timed frame'.rows).filter fun row => row.1 < T)
    (before : t < T) : valueAt s rule f frame t = valueAt s rule f frame' t := by
  have row {rows : List Row} (there : T ∈ (timed rows).map Prod.fst) :
      ∃ row ∈ s.run Prod.fst (timed rows), row.1 = T :=
    (List.mem_map.mp there).imp fun row both => ⟨(s.perm Prod.fst _).mem_iff.mpr both.1, both.2⟩
  unfold valueAt resample groups
  rw [bars_before (s.sorted _ _) frame.columns (row there) before,
    bars_before (s.sorted _ _) frame'.columns (row there') before, run_before s settled settled' same, columns]

/-- What a row gets is made of bars whose rows are not later, and rows from the next one on change it only by their
times. Cutting a frame whose rows are in order changes no row before the last one left. Every row with a time is in
one bar. -/
theorem aligned_causal (s : Sorter) (rule : Nat) (f : List Bar → Option ℚ) :
    (∀ rows : List Row, (groups s rule rows).flatten.Perm (timed rows)) ∧
    (∀ frame : Frame, (∀ row ∈ frame.rows, row.time ≠ none) → ∃ out, aligned s rule f frame = some out ∧
      out.map (fun pair => some pair.1) = frame.rows.map Row.time) ∧
    (∀ (frame : Frame) (out : List (Int × ℚ)), aligned s rule f frame = some out → ∀ pair ∈ out,
      pair.2 = carry f ((resample s rule frame).filter fun bar => bar.time ≤ pair.1) ∧
      ∀ group ∈ groups s rule frame.rows, (barOf frame.columns group).time ≤ pair.1 → ∀ row ∈ group, row.1 ≤ pair.1) ∧
    (∀ (frame frame' : Frame) (T : Int), frame.columns = frame'.columns →
      (s.Stable ∨ ((timed frame.rows).map Prod.fst).Nodup) →
      (s.Stable ∨ ((timed frame'.rows).map Prod.fst).Nodup) →
      T ∈ (timed frame.rows).map Prod.fst → T ∈ (timed frame'.rows).map Prod.fst →
      (timed frame.rows).filter (fun row => row.1 < T) = (timed frame'.rows).filter (fun row => row.1 < T) →
      ∀ out out', aligned s rule f frame = some out → aligned s rule f frame' = some out' →
        ∀ t v v', t < T → (t, v) ∈ out → (t, v') ∈ out' → v = v') ∧
    ∀ (frame : Frame) (k : Nat) (T : Int), (frame.rows.map Row.time)[k]? = some (some T) →
      (s.Stable ∨ ((timed frame.rows).map Prod.fst).Nodup) →
      (timed frame.rows).Pairwise (fun row row' => row.1 ≤ row'.1) →
      ∀ out cut, aligned s rule f frame = some out →
        aligned s rule f { frame with rows := frame.rows.take (k + 1) } = some cut →
        ∀ pair ∈ cut, pair.1 < T → pair ∈ out := by
  refine ⟨groups_perm s rule, fun frame whole => ?_, fun frame out runs pair mem => ⟨?_, ?_⟩, ?_, ?_⟩
  · have present : none ∉ frame.rows.map Row.time := by
      rw [List.mem_map]
      rintro ⟨row, mem, missing⟩
      exact whole row mem missing
    refine ⟨_, aligned_eq_some.mpr ⟨present, rfl⟩, ?_⟩
    rw [List.map_map]
    exact map_some_reduceOption present
  · exact ((mem_aligned runs).mp mem).2
  · intro group mem stamp row inside
    obtain ⟨start, -, rfl⟩ := List.mem_map.mp mem
    exact (barOf_time frame.columns ((s.sorted _ _).filter _) inside).1.trans stamp
  · intro frame frame' T columns settled settled' there there' same out out' runs runs' t v v' before mem mem'
    have value := ((mem_aligned runs).mp mem).2
    have value' := ((mem_aligned runs').mp mem').2
    exact value.trans ((valueAt_eq columns settled settled' there there' same before).trans value'.symm)
  · intro frame k T last settled ordered out cut runs cutRuns pair mem before
    obtain ⟨there, value⟩ := (mem_aligned cutRuns).mp mem
    have split : timed frame.rows = timed (frame.rows.take (k + 1)) ++ timed (frame.rows.drop (k + 1)) := by
      rw [timed, timed, timed, ← List.filterMap_append, List.take_append_drop]
    have there' : T ∈ (timed (frame.rows.take (k + 1))).map Prod.fst := by
      rw [timed_times, List.reduceOption_mem_iff, List.map_take]
      refine List.mem_of_getElem? (i := k) ?_
      rwa [List.getElem?_take_of_lt (Nat.lt_succ_self k)]
    obtain ⟨row, inside, rfl⟩ := List.mem_map.mp there'
    rw [split] at ordered
    have later : (timed (frame.rows.drop (k + 1))).filter (fun other => other.1 < row.1) = [] :=
      List.filter_eq_nil_iff.mpr fun other mem lt =>
        absurd (of_decide_eq_true lt) (not_lt.mpr ((List.pairwise_append.mp ordered).2.2 row inside other mem))
    have settled' : s.Stable ∨ ((timed (frame.rows.take (k + 1))).map Prod.fst).Nodup := by
      refine settled.imp_right fun nodup => ?_
      rw [split, List.map_append] at nodup
      exact nodup.of_append_left
    have same : valueAt s rule f { frame with rows := frame.rows.take (k + 1) } pair.1 =
        valueAt s rule f frame pair.1 := by
      refine valueAt_eq rfl settled' settled there' ?_ ?_ before
      · rw [split, List.map_append]
        exact List.mem_append_left _ there'
      · rw [split, List.filter_append, later, List.append_nil]
    rw [List.map_take] at there
    exact (mem_aligned runs).mpr ⟨List.mem_of_mem_take there, value.trans same⟩

/-- Insertion sort, which `numpy` uses for up to sixteen values. -/
def insertion : Sorter where
  run time l := l.insertionSort fun a b => time a ≤ time b
  perm _ _ := List.perm_insertionSort _ _
  sorted time l := by
    have total : Std.Total fun a b => time a ≤ time b := ⟨fun a b => le_total _ _⟩
    have trans : IsTrans _ fun a b => time a ≤ time b := ⟨fun _ _ _ => le_trans⟩
    exact List.pairwise_insertionSort _ l

def ofTimes (times : List (Option Int)) : Frame := ⟨[], times.map fun time => ⟨time, []⟩⟩

def count (bars : List Bar) : Option ℚ := some bars.length

theorem aligned_causal_cut : ∀ out, aligned insertion 60 count (ofTimes [some 0, some 20, some 65]) = some out →
    (0, 0) ∈ out := fun out runs =>
  (aligned_causal insertion 60 count).2.2.2.2 (ofTimes [some 0, some 20, some 65]) 1 20 rfl (.inr (by decide))
    (by decide) out [(0, 0), (20, 1)] runs (by with_unfolding_all decide) (0, 0) (by decide) (by decide)

/-- A sort that turns rows of one time round in longer frames. -/
def turning : Sorter where
  run time l := if l.length ≤ 16 then insertion.run time l else insertion.run time l.reverse
  perm time l := by
    split
    · exact insertion.perm time l
    · exact (insertion.perm time _).trans (List.reverse_perm l)
  sorted time l := by
    split <;> exact insertion.sorted time _

def lastCell (bars : List Bar) : Option ℚ := (bars.getLast?).bind fun bar => (bar.cells.head?).join

/-- Two values at time 0, and more rows than a short sort takes. -/
def tied : Frame := ⟨[⟨['x'], true⟩], ⟨some 0, [some 1]⟩ :: ⟨some 0, [some 2]⟩ ::
  (List.range 15).map fun i => ⟨some (60 * (i + 1)), [some 0]⟩⟩

/-- A row that comes before another of its bucket or before one of the next gets another value. So does a row of a
frame that is cut before an earlier row, and one of a frame whose rows of one time are turned round. A row without a
time is in no bar. -/
theorem aligned_early :
    (aligned insertion 60 count (ofTimes [some 0, some 20, some 65]) = some [(0, 0), (20, 1), (65, 2)] ∧
      aligned insertion 60 count (ofTimes [some 0, some 20, some 40]) = some [(0, 0), (20, 0), (40, 1)]) ∧
    (aligned insertion 25 count (ofTimes [some 10, some 30, some 20]) = some [(10, 0), (30, 2), (20, 1)] ∧
      aligned insertion 25 count (ofTimes [some 10, some 30]) = some [(10, 1), (30, 2)]) ∧
    ((aligned turning 60 lastCell tied).map (·.head?) = some (some (0, 1)) ∧
      (aligned turning 60 lastCell { tied with rows := tied.rows.take 3 }).map (·.head?) = some (some (0, 2))) ∧
    groups insertion 60 (ofTimes [none]).rows = [] := by
  with_unfolding_all decide

end FreeSwarm.Sandbox.Resample
