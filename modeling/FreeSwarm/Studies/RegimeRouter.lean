import FreeSwarm.Foundation.Distinct
import FreeSwarm.Foundation.Groups
import FreeSwarm.Foundation.Text
import FreeSwarm.TaskKit.Forecast
import Mathlib.Data.List.MinMax
import Mathlib.Data.List.ReduceOption

/-!
# Members, regimes and the router

`analyze` attributes the return of a bar to the label of the bar before it, whose position earns it. The numbers
before the split are made of the rows before the split. A change of position is charged at the bar after it, so that
one at the last bar is not charged.
-/

namespace FreeSwarm.Studies.Router

open FreeSwarm.Foundation FreeSwarm.TaskKit

/-! ## Model -/

abbrev Label := List Char

inductive Direction where
  | both | long | short

/-- How `analyze` is called. Dates are numbers of days. -/
structure Settings where
  seqs : List Nat
  costBps : ℚ
  maxLeverage : ℚ
  direction : Direction
  split : Option Int
  mid : Option Int
  routes : Option (Label → Option Nat)

/-- What it reads: prices, labels, and the positions of each member. -/
structure Tables where
  price : List (Int × ℚ)
  labels : List (Int × Option Label)
  positions : List (List (Int × Option ℚ))

/-- A row of `g`. -/
structure Row where
  t : Int
  p : ℚ
  label : Label
  /-- `m0`, `m1` and so on. -/
  m : List ℚ

/-- A row of `b`, with the rows that its lags look at. -/
structure Bar where
  now : Row
  prev : Row
  before : Option Row

def dateOf (t : Int) : Int := t / 86400000000000

namespace Bar

variable (b : Bar)

def d : Int := dateOf b.now.t

def lab : Label := b.prev.label

def ret : ℚ := b.now.p / b.prev.p - 1

/-- What the change to the position costs that earns the return. -/
def fee (cost : ℚ) (pos : Row → ℚ) : ℚ := cost * |pos b.prev - (b.before.map pos).getD 0|

def net (cost : ℚ) (pos : Row → ℚ) : ℚ := pos b.prev * b.ret - b.fee cost pos

end Bar

/-- `ASOF LEFT JOIN`: the values at the last time at or before a time. -/
def asof {α : Type} (rows : List (Int × α)) (t : Int) : List α :=
  match ((rows.map Prod.fst).filter (· ≤ t)).max? with
  | none => []
  | some u => (rows.filter fun row => row.1 = u).map Prod.snd

variable (cfg : Settings)

def Settings.cost : ℚ := cfg.costBps / 10000

/-- A position within the limits. -/
def Settings.clip (pos : Option ℚ) : ℚ :=
  let lev := if cfg.maxLeverage = 0 then 1 else cfg.maxLeverage
  let lo := match cfg.direction with
    | .long => 0
    | _ => -lev
  let hi := match cfg.direction with
    | .short => 0
    | _ => lev
  max lo (min hi (pos.getD 0))

/-- `g`. Of several labels or positions of one time, `arg_max` takes the first. -/
def Tables.rows (T : Tables) : List Row :=
  let px := T.price.filter fun row => 0 < row.2
  (distinct (px.map Prod.fst)).map fun t =>
    let prices := (px.filter fun row => row.1 = t).map Prod.snd
    { t, p := prices.sum / prices.length,
      label := ((asof T.labels t).reduceOption.head?).getD "warmup".toList,
      m := T.positions.map fun rows => ((asof rows t).head?.map cfg.clip).getD 0 }

def follow : Option Row → Row → List Row → List Bar
  | _, _, [] => []
  | before, prev, now :: rows => ⟨now, prev, before⟩ :: follow (some prev) now rows

/-- `b`, without its first row. -/
def barsOf : List Row → List Bar
  | [] => []
  | first :: rows => follow none first rows

def Tables.bars (T : Tables) : List Bar := barsOf (T.rows cfg)

section Arrays

variable (bars : List Bar)

def dates : List Int := distinct (bars.map Bar.d)

/-- `labels`, in any order. -/
def labels : List Label := (bars.map Bar.lab).dedup

/-- What the bars of a label add up to on a day. -/
def cell (x : Bar → ℚ) (lab : Label) (d : Int) : ℚ :=
  ((bars.filter fun b => decide (b.lab = lab) && decide (b.d = d)).map x).sum

def present (lab : Label) (d : Int) : Bool := bars.any fun b => decide (b.lab = lab) && decide (b.d = d)

/-- `sum(axis=0)`. -/
def overLabels (x : Bar → ℚ) (d : Int) : ℚ := ((labels bars).map fun lab => cell bars x lab d).sum

def anyDay (d : Int) : Bool := (labels bars).any fun lab => present bars lab d

end Arrays

def isMask (d : Int) : Bool :=
  match cfg.split with
  | some split => d < split
  | none => true

/-- `mid`. -/
def midOf (bars : List Bar) : Option Int :=
  let isDays := (dates bars).filter (isMask cfg)
  let inside := cfg.mid.filter fun mid => isDays.head?.any (· < mid) && isDays.getLast?.any (mid ≤ ·)
  inside.or isDays[isDays.length / 2]?

/-- The parts of a study before the split. -/
inductive Segment where
  | is | a | b

def seg (bars : List Bar) (s : Segment) (d : Int) : Bool :=
  isMask cfg d &&
    match s with
    | .is => true
    | .a => (midOf cfg bars).all (d < ·)
    | .b => (midOf cfg bars).any (· ≤ d)

structure Stats where
  days : Nat
  sharpe : Option ℚ
  pnl : ℚ
  hit : Option ℚ

variable (sqrt : ℚ → ℚ)

def sharpe (x : List ℚ) : Option ℚ :=
  if x.length < 5 then none
  else
    let mean := x.sum / x.length
    let sd := sqrt ((x.map fun v => (v - mean) ^ 2).sum / (x.length - 1))
    if 0 < sd then some (mean / sd * sqrt 252) else none

variable (bars : List Bar) (lab : Label)

/-- `_seg`. -/
def stats (x : Int → ℚ) (there mask : Int → Bool) : Stats :=
  let v := ((dates bars).filter fun d => there d && mask d).map x
  { days := v.length
    sharpe := (sharpe sqrt v).map (roundTo 2)
    pnl := roundTo 6 v.sum
    hit := if v = [] then none else some (roundTo 3 ((v.filter (0 < ·)).length / v.length)) }

/-- The position of a member. -/
def Settings.posOf (s : Nat) (g : Row) : ℚ := g.m.getD (cfg.seqs.idxOf s) 0

def cells (s : Nat) (part : Segment) : Stats :=
  stats sqrt bars (cell bars (fun b => b.net cfg.cost (cfg.posOf s)) lab) (present bars lab) (seg cfg bars part)

def memberDaily (s : Nat) : Int → ℚ := overLabels bars fun b => b.net cfg.cost (cfg.posOf s)

def memberStats (s : Nat) (part : Segment) : Stats :=
  stats sqrt bars (memberDaily cfg bars s) (anyDay bars) (seg cfg bars part)

/-- `share`, before the split. -/
def share : ℚ :=
  roundTo 4 ((bars.filter fun b => decide (b.lab = lab) && isMask cfg b.d).length /
    max 1 ((bars.filter fun b => isMask cfg b.d).length : ℚ))

/-- `days`, before the split. -/
def days : Nat :=
  ((dates bars).filter fun d => present bars lab d && isMask cfg d).length

/-- A Sharpe ratio to compare by, if it counts as true. -/
def orWorst : Option ℚ → ℚ
  | none => -10 ^ 9
  | some v => if v = 0 then -10 ^ 9 else v

def best : Option Nat :=
  cfg.seqs.argmax fun s => orWorst (memberStats cfg sqrt bars s .is).sharpe

def SKIP_LABELS : List Label :=
  ["warmup".toList, "unknown".toList, "nan".toList, "None".toList, []]

/-- What a member must beat in a half. -/
def barOver (base : Option ℚ) : ℚ := max (base.getD 0) 0 + 1 / 2

/-- `suggest_routes`, for a label. -/
def suggest : Option Nat :=
  if lab ∈ SKIP_LABELS then none
  else match best cfg sqrt bars with
    | none => none
    | some base =>
      if share cfg bars lab < 1 / 50 ∨ days cfg bars lab < 15 then some base
      else
        let half (s : Nat) (part : Segment) := cells cfg sqrt bars lab s part
        let beats (s : Nat) (part : Segment) :=
          decide (5 ≤ (half s part).days) && (half s part).sharpe.any (barOver (half base part).sharpe < ·)
        let switched := (cfg.seqs.filter fun s => decide (s ≠ base) && beats s .a && beats s .b).argmax fun s =>
          min ((half s .a).sharpe.getD 0) ((half s .b).sharpe.getD 0)
        let loses := (half base .a).sharpe.any (· < 0) && (half base .b).sharpe.any (· < 0)
        switched.or (if loses then none else some base)

/-- `use`. -/
def route : Option Nat :=
  match cfg.routes with
  | none => suggest cfg sqrt bars lab
  | some routes => (routes lab).filter (· ∈ cfg.seqs)

def routed (g : Row) : ℚ :=
  if g.label ∈ labels bars then ((route cfg sqrt bars g.label).map fun s => cfg.posOf s g).getD 0 else 0

def routerByLabel : Label → Int → ℚ := cell bars fun b => b.net cfg.cost (routed cfg sqrt bars)

def routerDaily : Int → ℚ := overLabels bars fun b => b.net cfg.cost (routed cfg sqrt bars)

/-- `contrib`, by member, or `none` for flat. -/
def contrib (s : Option Nat) (d : Int) : ℚ :=
  (((labels bars).filter fun lab => route cfg sqrt bars lab = s).map fun lab =>
    routerByLabel cfg sqrt bars lab d).sum

/-- How far positions move, one after the other. -/
def changes : ℚ → List ℚ → ℚ
  | _, [] => 0
  | q, x :: xs => |x - q| + changes x xs

/-- What is told of the days before the split. -/
structure InSample where
  share : Label → ℚ
  days : Label → Nat
  cells : Label → Nat → Segment → Stats
  members : Nat → Segment → Stats
  best : Option Nat
  suggested : Label → Option Nat

def inSample : InSample :=
  ⟨share cfg bars, days cfg bars, cells cfg sqrt bars, memberStats cfg sqrt bars, best cfg sqrt bars,
    suggest cfg sqrt bars⟩

/-! ## Before the split -/

variable {cfg sqrt} {cut : Int}

def before {α : Type} (cut : Int) (rows : List (Int × α)) : List (Int × α) := rows.filter fun row => dateOf row.1 < cut

/-- The rows of all tables before a date. -/
def Tables.early (T : Tables) (cut : Int) : Tables :=
  ⟨before cut T.price, before cut T.labels, T.positions.map (before cut)⟩

theorem dateOf_mono {t u : Int} (le : t ≤ u) : dateOf t ≤ dateOf u := Int.ediv_le_ediv (by norm_num) le

theorem asof_before {α : Type} (rows : List (Int × α)) {t : Int} (early : dateOf t < cut) :
    asof (before cut rows) t = asof rows t := by
  have inside {u : Int} (le : u ≤ t) : dateOf u < cut := (dateOf_mono le).trans_lt early
  have times : ((before cut rows).map Prod.fst).filter (· ≤ t) = (rows.map Prod.fst).filter (· ≤ t) := by
    rw [before, List.filter_map, List.filter_map, List.filter_filter]
    refine congrArg _ (List.filter_congr fun row _ => ?_)
    simpa using fun le => inside le
  unfold asof
  rw [times]
  cases latest : ((rows.map Prod.fst).filter (· ≤ t)).max? with
  | none => rfl
  | some u =>
    have le : u ≤ t := by simpa using (List.mem_filter.mp (List.max?_mem latest)).2
    dsimp only
    rw [before, List.filter_filter]
    refine congrArg _ (List.filter_congr fun row _ => ?_)
    have kept : row.1 = u → dateOf row.1 < cut := fun is_ => inside (is_ ▸ le)
    simpa using kept

theorem rows_early (T : Tables) :
    (T.rows cfg).filter (fun g => dateOf g.t < cut) = (T.early cut).rows cfg := by
  have prices : (before cut T.price).filter (fun row => 0 < row.2) =
      before cut (T.price.filter fun row => 0 < row.2) := by
    rw [before, before, List.filter_filter, List.filter_filter]
    exact List.filter_congr fun _ _ => Bool.and_comm _ _
  have times (rows : List (Int × ℚ)) : (before cut rows).map Prod.fst =
      (rows.map Prod.fst).filter fun t => dateOf t < cut := by
    rw [before, List.filter_map]
    rfl
  unfold Tables.rows Tables.early
  dsimp only
  rw [prices, times, distinct_filter, List.filter_map]
  refine List.map_congr_left fun t mem => ?_
  have early : dateOf t < cut := of_decide_eq_true (List.mem_filter.mp mem).2
  have same (rows : List (Int × ℚ)) :
      (before cut rows).filter (fun row => row.1 = t) = rows.filter fun row => row.1 = t := by
    rw [before, List.filter_filter]
    refine List.filter_congr fun row _ => ?_
    have kept : row.1 = t → dateOf row.1 < cut := fun is_ => is_ ▸ early
    simpa using kept
  rw [same, asof_before _ early, List.map_map]
  refine congrArg _ (List.map_congr_left fun rows _ => ?_)
  rw [Function.comp_apply, asof_before _ early]

theorem rows_sorted (T : Tables) : (T.rows cfg).Pairwise fun g h => g.t ≤ h.t :=
  List.pairwise_map.mpr ((distinct_sorted _).imp fun lt => le_of_lt lt)

theorem follow_early {gs : List Row} (sorted : gs.Pairwise fun g h => g.t ≤ h.t) (back : Option Row) (prev : Row) :
    (follow back prev gs).filter (fun b => b.d < cut) = follow back prev (gs.filter fun g => dateOf g.t < cut) := by
  induction gs generalizing back prev with
  | nil => rfl
  | cons g gs ih =>
    obtain ⟨least, sorted⟩ := List.pairwise_cons.mp sorted
    have rest := ih sorted (some prev) g
    by_cases early : dateOf g.t < cut
    · have kept : decide (Bar.d ⟨g, prev, back⟩ < cut) = true := decide_eq_true early
      simp only [follow, List.filter_cons, kept, decide_eq_true early, if_true, rest]
    · have none_ : gs.filter (fun g => dateOf g.t < cut) = [] :=
        List.filter_eq_nil_iff.mpr fun h mem lt =>
          early ((dateOf_mono (least h mem)).trans_lt (of_decide_eq_true lt))
      rw [none_] at rest
      have out : decide (Bar.d ⟨g, prev, back⟩ < cut) = false := decide_eq_false early
      simp only [follow, List.filter_cons, out, decide_eq_false early, none_, rest, Bool.false_eq_true, if_false]

theorem bars_early (T : Tables) : (T.bars cfg).filter (fun b => b.d < cut) = (T.early cut).bars cfg := by
  have sorted : (T.rows cfg).Pairwise fun g h => g.t ≤ h.t := rows_sorted T
  rw [Tables.bars, Tables.bars, ← rows_early]
  generalize T.rows cfg = gs at sorted
  cases gs with
  | nil => rfl
  | cons g gs =>
    obtain ⟨least, sorted⟩ := List.pairwise_cons.mp sorted
    rw [barsOf, follow_early sorted]
    by_cases early : dateOf g.t < cut
    · simp only [List.filter_cons, decide_eq_true early, if_true, barsOf]
    · have none_ : gs.filter (fun g => dateOf g.t < cut) = [] :=
        List.filter_eq_nil_iff.mpr fun h mem lt =>
          early ((dateOf_mono (least h mem)).trans_lt (of_decide_eq_true lt))
      simp only [List.filter_cons, decide_eq_false early, none_, Bool.false_eq_true, if_false, barsOf, follow]

section Early

variable (bars : List Bar)

def upTo (cut : Int) : List Bar := bars.filter fun b => b.d < cut

theorem filter_upTo {p : Bar → Bool} (early : ∀ b, p b = true → b.d < cut) :
    (upTo bars cut).filter p = bars.filter p := by
  rw [upTo, List.filter_filter]
  refine List.filter_congr fun b _ => ?_
  simpa using early b

theorem any_upTo {p : Bar → Bool} (early : ∀ b, p b = true → b.d < cut) : (upTo bars cut).any p = bars.any p := by
  rw [upTo, List.any_filter]
  refine congrArg (List.any bars) (funext fun b => ?_)
  simpa using early b

theorem dates_upTo : dates (upTo bars cut) = (dates bars).filter (· < cut) := by
  rw [dates, dates, ← distinct_filter, upTo, List.filter_map]
  rfl

variable {bars} {d : Int} {lab : Label}

theorem cell_upTo (x : Bar → ℚ) (early : d < cut) : cell (upTo bars cut) x lab d = cell bars x lab d := by
  unfold cell
  rw [filter_upTo bars fun b both => ?_]
  obtain ⟨-, is_⟩ := Bool.and_eq_true_iff.mp both
  exact of_decide_eq_true is_ ▸ early

theorem present_upTo (early : d < cut) : present (upTo bars cut) lab d = present bars lab d := by
  refine any_upTo bars fun b both => ?_
  obtain ⟨-, is_⟩ := Bool.and_eq_true_iff.mp both
  exact of_decide_eq_true is_ ▸ early

theorem overLabels_eq (bars : List Bar) (x : Bar → ℚ) (d : Int) :
    overLabels bars x d = ((bars.filter fun b => b.d = d).map x).sum := by
  have cover : ∀ b ∈ bars.filter (fun b => b.d = d), b.lab ∈ labels bars := fun b mem =>
    List.mem_dedup.mpr (List.mem_map_of_mem (List.mem_filter.mp mem).1)
  rw [← sum_groups (List.nodup_dedup _) cover]
  unfold overLabels cell
  refine congrArg List.sum (List.map_congr_left fun lab _ => ?_)
  rw [List.filter_filter]

theorem overLabels_upTo (x : Bar → ℚ) (early : d < cut) : overLabels (upTo bars cut) x d = overLabels bars x d := by
  rw [overLabels_eq, overLabels_eq, filter_upTo bars fun b is_ => of_decide_eq_true is_ ▸ early]

theorem anyDay_eq (bars : List Bar) (d : Int) : anyDay bars d = bars.any fun b => b.d = d := by
  rw [Bool.eq_iff_iff]
  simp only [anyDay, present, labels, List.any_eq_true, List.mem_dedup, List.mem_map, Bool.and_eq_true,
    decide_eq_true_eq]
  constructor
  · rintro ⟨lab, -, b, mem, -, is_⟩
    exact ⟨b, mem, is_⟩
  · rintro ⟨b, mem, is_⟩
    exact ⟨b.lab, ⟨b, mem, rfl⟩, b, mem, rfl, is_⟩

theorem anyDay_upTo (early : d < cut) : anyDay (upTo bars cut) d = anyDay bars d := by
  rw [anyDay_eq, anyDay_eq, any_upTo bars fun b is_ => of_decide_eq_true is_ ▸ early]

variable (split : cfg.split = some cut)
include split

theorem isMask_eq : isMask cfg d = decide (d < cut) := by rw [isMask, split]

theorem isDays_upTo : (dates (upTo bars cut)).filter (isMask cfg) = (dates bars).filter (isMask cfg) := by
  rw [dates_upTo, List.filter_filter]
  refine List.filter_congr fun d _ => ?_
  rw [isMask_eq split, Bool.and_self]

theorem seg_upTo (part : Segment) : seg cfg (upTo bars cut) part d = seg cfg bars part d := by
  unfold seg midOf
  rw [isDays_upTo split]

theorem stats_upTo {x x' : Int → ℚ} {there there' : Int → Bool} {part : Segment}
    (same : ∀ d < cut, x' d = x d ∧ there' d = there d) :
    stats sqrt (upTo bars cut) x' there' (seg cfg (upTo bars cut) part) =
      stats sqrt bars x there (seg cfg bars part) := by
  have inside {d : Int} (mask : seg cfg bars part d = true) : d < cut := by
    unfold seg at mask
    rw [isMask_eq split] at mask
    exact of_decide_eq_true (Bool.and_eq_true_iff.mp mask).1
  have days : ((dates (upTo bars cut)).filter fun d => there' d && seg cfg (upTo bars cut) part d) =
      (dates bars).filter fun d => there d && seg cfg bars part d := by
    rw [dates_upTo, List.filter_filter]
    refine List.filter_congr fun d _ => ?_
    rw [seg_upTo split]
    by_cases early : d < cut
    · rw [(same d early).2, decide_eq_true early, Bool.and_true]
    · have out : seg cfg bars part d = false := Bool.eq_false_iff.mpr fun mask => early (inside mask)
      rw [out, Bool.and_false, Bool.and_false, Bool.false_and]
  have values : (((dates bars).filter fun d => there d && seg cfg bars part d).map x') =
      ((dates bars).filter fun d => there d && seg cfg bars part d).map x :=
    List.map_congr_left fun d mem =>
      (same d (inside (Bool.and_eq_true_iff.mp (List.mem_filter.mp mem).2).2)).1
  unfold stats
  rw [days, values]

/-- What is told of the days before the split is made of the bars before it. -/
theorem inSample_upTo : inSample cfg sqrt (upTo bars cut) = inSample cfg sqrt bars := by
  have cellsSame : cells cfg sqrt (upTo bars cut) = cells cfg sqrt bars := by
    funext lab s part
    exact stats_upTo split fun d early => ⟨cell_upTo _ early, present_upTo early⟩
  have membersSame : memberStats cfg sqrt (upTo bars cut) = memberStats cfg sqrt bars := by
    funext s part
    exact stats_upTo split fun d early => ⟨overLabels_upTo _ early, anyDay_upTo early⟩
  have shareSame : share cfg (upTo bars cut) = share cfg bars := by
    funext lab
    have inside (b : Bar) (mask : isMask cfg b.d = true) : b.d < cut := by
      rw [isMask_eq split] at mask
      exact of_decide_eq_true mask
    unfold share
    rw [filter_upTo bars fun b both => inside b (Bool.and_eq_true_iff.mp both).2, filter_upTo bars inside]
  have daysSame : days cfg (upTo bars cut) = days cfg bars := by
    funext lab
    unfold days
    rw [dates_upTo, List.filter_filter]
    refine congrArg _ (List.filter_congr fun d _ => ?_)
    rw [isMask_eq split]
    by_cases early : d < cut
    · rw [present_upTo early, decide_eq_true early, Bool.and_true]
    · rw [decide_eq_false early, Bool.and_false, Bool.and_false]
  have bestSame : best cfg sqrt (upTo bars cut) = best cfg sqrt bars := by rw [best, best, membersSame]
  have suggestSame : suggest cfg sqrt (upTo bars cut) = suggest cfg sqrt bars := by
    funext lab
    rw [suggest, suggest, bestSame, cellsSame, shareSame, daysSame]
  rw [inSample, inSample, cellsSame, membersSame, shareSame, daysSame, bestSame, suggestSame]

end Early

/-! ## The router -/

/-- The row before the last one of a bar is the last one of another bar, unless it is the one that is given. -/
theorem follow_before {back : Option Row} {prev : Row} {gs : List Row} :
    ∀ b ∈ follow back prev gs, ∀ g, b.before = some g → back = some g ∨ ∃ b' ∈ follow back prev gs, b'.prev = g := by
  induction gs generalizing back prev with
  | nil => exact fun b mem => absurd mem List.not_mem_nil
  | cons now gs ih =>
    intro b mem g is_
    rcases List.mem_cons.mp mem with rfl | mem
    · exact .inl is_
    · refine .inr ?_
      rcases ih b mem g is_ with same | ⟨b', mem, same⟩
      · exact ⟨_, List.mem_cons_self, Option.some.inj same⟩
      · exact ⟨b', List.mem_cons_of_mem _ mem, same⟩

variable {bars : List Bar}

theorem lab_mem {b : Bar} (mem : b ∈ bars) : b.prev.label ∈ labels bars :=
  List.mem_dedup.mpr (List.mem_map_of_mem mem)

theorem net_routed {T : Tables} {s : Nat}
    (one : ∀ lab ∈ labels (T.bars cfg), route cfg sqrt (T.bars cfg) lab = some s) {b : Bar} (mem : b ∈ T.bars cfg) :
    b.net cfg.cost (routed cfg sqrt (T.bars cfg)) = b.net cfg.cost (cfg.posOf s) := by
  have same {g : Row} (there : g.label ∈ labels (T.bars cfg)) : routed cfg sqrt (T.bars cfg) g = cfg.posOf s g := by
    rw [routed, if_pos there, one _ there]
    rfl
  have earlier : b.before.map (routed cfg sqrt (T.bars cfg)) = b.before.map (cfg.posOf s) := by
    cases is_ : b.before with
    | none => rfl
    | some g =>
      refine congrArg some (same ?_)
      unfold Tables.bars at mem ⊢
      cases rows : T.rows cfg with
      | nil => exact absurd (rows ▸ mem) List.not_mem_nil
      | cons first gs =>
        rw [rows] at mem
        rcases follow_before b mem g is_ with none_ | ⟨b', mem, rfl⟩
        · exact absurd none_ (by simp)
        · exact lab_mem mem
  rw [Bar.net, Bar.net, Bar.fee, Bar.fee, earlier, same (lab_mem mem)]

theorem best_mem {s : Nat} (is_ : best cfg sqrt bars = some s) : s ∈ cfg.seqs := List.argmax_mem is_

theorem suggest_mem {lab : Label} {s : Nat} (is_ : suggest cfg sqrt bars lab = some s) :
    s ∈ cfg.seqs := by
  unfold suggest at is_
  split at is_
  · exact absurd is_ (by simp)
  · split at is_
    · exact absurd is_ (by simp)
    · rename_i base there
      split at is_
      · exact best_mem (there.trans is_)
      · rcases Option.or_eq_some_iff.mp is_ with switched | ⟨-, kept⟩
        · exact (List.mem_filter.mp (List.argmax_mem switched)).1
        · split at kept
          · exact absurd kept (by simp)
          · exact best_mem (there.trans kept)

theorem route_mem (bars : List Bar) (lab : Label) : route cfg sqrt bars lab ∈ none :: cfg.seqs.dedup.map some := by
  cases is_ : route cfg sqrt bars lab with
  | none => exact List.mem_cons_self
  | some s =>
    refine List.mem_cons_of_mem _ (List.mem_map_of_mem (List.mem_dedup.mpr ?_))
    unfold route at is_
    split at is_
    · exact suggest_mem is_
    · exact of_decide_eq_true (Option.filter_eq_some_iff.mp is_).2

/-- Each change is charged once, at the bar behind it. -/
theorem fee_sum (cost : ℚ) (pos : Row → ℚ) (back : Option Row) (prev : Row) (gs : List Row) :
    ((follow back prev gs).map fun b => b.fee cost pos).sum =
      cost * changes ((back.map pos).getD 0) (((prev :: gs).dropLast).map pos) := by
  induction gs generalizing back prev with
  | nil => simp [follow, changes]
  | cons now gs ih =>
    rw [follow, List.map_cons, List.sum_cons, ih, List.dropLast_cons_cons, List.map_cons, changes, mul_add]
    rfl

/-- A router to one member is that member. The contributions add up to the router. Its costs are those of its own
changes of position, each charged once, but for a change at the last bar. What is told of the days before the split
is made of the rows before it. -/
theorem attribution (cfg : Settings) (sqrt : ℚ → ℚ) (T : Tables) :
    (∀ s, (∀ lab ∈ labels (T.bars cfg), route cfg sqrt (T.bars cfg) lab = some s) →
      routerDaily cfg sqrt (T.bars cfg) = memberDaily cfg (T.bars cfg) s) ∧
    (∀ d, ((none :: cfg.seqs.dedup.map some).map fun s => contrib cfg sqrt (T.bars cfg) s d).sum =
      routerDaily cfg sqrt (T.bars cfg) d) ∧
    ((dates (T.bars cfg)).map (routerDaily cfg sqrt (T.bars cfg))).sum =
      ((T.bars cfg).map fun b => routed cfg sqrt (T.bars cfg) b.prev * b.ret).sum -
        cfg.cost * changes 0 ((T.rows cfg).dropLast.map (routed cfg sqrt (T.bars cfg))) ∧
    ∀ (T' : Tables) (cut : Int), cfg.split = some cut → T.early cut = T'.early cut →
      inSample cfg sqrt (T.bars cfg) = inSample cfg sqrt (T'.bars cfg) := by
  refine ⟨fun s one => ?_, fun d => ?_, ?_, fun T' cut split same => ?_⟩
  · funext d
    rw [routerDaily, memberDaily, overLabels_eq, overLabels_eq]
    exact congrArg List.sum (List.map_congr_left fun b mem => net_routed one (List.mem_filter.mp mem).1)
  · have nodup : (none :: cfg.seqs.dedup.map some).Nodup :=
      List.nodup_cons.mpr ⟨by simp, (List.nodup_dedup _).map (Option.some_injective _)⟩
    exact sum_groups nodup (fun lab _ => route_mem (T.bars cfg) lab) fun lab =>
      routerByLabel cfg sqrt (T.bars cfg) lab d
  · have days : ((dates (T.bars cfg)).map (routerDaily cfg sqrt (T.bars cfg))).sum =
        ((T.bars cfg).map fun b => b.net cfg.cost (routed cfg sqrt (T.bars cfg))).sum := by
      rw [← sum_groups (distinct_nodup ((T.bars cfg).map Bar.d)) fun b mem =>
        mem_distinct.mpr (List.mem_map_of_mem mem)]
      exact congrArg List.sum (List.map_congr_left fun d _ => overLabels_eq _ _ d)
    have fees : ((T.bars cfg).map fun b => b.fee cfg.cost (routed cfg sqrt (T.bars cfg))).sum =
        cfg.cost * changes 0 ((T.rows cfg).dropLast.map (routed cfg sqrt (T.bars cfg))) := by
      generalize routed cfg sqrt (T.bars cfg) = pos
      unfold Tables.bars
      cases T.rows cfg with
      | nil => simp [barsOf, changes]
      | cons first gs => exact fee_sum cfg.cost pos none first gs
    rw [days, ← fees, eq_sub_iff_add_eq, ← List.sum_map_add]
    exact congrArg List.sum (List.map_congr_left fun b _ => sub_add_cancel _ _)
  · have early (T : Tables) : inSample cfg sqrt (upTo (T.bars cfg) cut) = inSample cfg sqrt (T.bars cfg) :=
      inSample_upTo split
    rw [← early T, ← early T', upTo, upTo, bars_early, bars_early, same]

/-- Two members, one of them for each of two labels, at a cost of one for each unit. -/
def switching : Settings where
  seqs := [0, 1]
  costBps := 10000
  maxLeverage := 1
  direction := .both
  split := some 1
  mid := none
  routes := some fun lab => if lab = ['a'] then some 0 else some 1

/-- A price that stays, with labels that change at the second row and at the last one. -/
def flat : Tables where
  price := [(0, 1), (1, 1), (2, 1), (3, 1)]
  labels := [(0, some ['a']), (1, some ['b']), (3, some ['a'])]
  positions := [[(0, some 1)], [(0, some (-1))]]

theorem attribution_flat :
    routerDaily { switching with routes := some fun _ => some 0 } id (flat.bars switching) =
      memberDaily switching (flat.bars switching) 0 ∧
    inSample switching id (flat.bars switching) =
      inSample switching id (Tables.bars switching { flat with price := flat.price ++ [(86400000000000, 2)] }) :=
  ⟨(attribution { switching with routes := some fun _ => some 0 } id flat).1 0 fun _ _ => rfl,
    (attribution switching id flat).2.2.2 _ 1 rfl (by rfl)⟩

/-- The change at the last row is not charged. -/
theorem attribution_last :
    ((dates (flat.bars switching)).map (routerDaily switching id (flat.bars switching))).sum = -3 ∧
    ((flat.bars switching).map fun b => routed switching id (flat.bars switching) b.prev * b.ret).sum -
      switching.cost * changes 0 ((flat.rows switching).map (routed switching id (flat.bars switching))) = -5 := by
  with_unfolding_all decide

end FreeSwarm.Studies.Router
