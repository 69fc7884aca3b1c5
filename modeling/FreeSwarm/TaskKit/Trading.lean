import FreeSwarm.TaskKit.Forecast
import FreeSwarm.TaskKit.Swings
import Mathlib.Data.List.SplitBy
import Mathlib.Data.Sign.Basic

/-!
# Positions in a price

`trading` marks positions to market: the position decided at a row earns the move to the next row, and a change of
position is charged with it, one row late.
-/

namespace FreeSwarm.TaskKit

/-- A row: its time, its price where it is a number, and the position decided there. -/
structure TradingRow where
  t : Int
  p : Option ℚ
  q : ℚ

structure PricedRow where
  t : Int
  p : ℚ
  q : ℚ

/-- How `trading` is called, and the statistics of daily returns: `M.stats`, of which the score is one. -/
structure TradingSettings (Stats : Type) where
  holdoutNs : Int
  /-- `cost_bps / 10_000`. -/
  cost : ℚ
  flatEachDay : Bool
  minActiveDays : Nat
  minSideShare : ℚ
  /-- `swing_pct / 100`. -/
  swing : ℚ
  stats : List ℚ → Stats
  /-- `st.get(score)`. -/
  score : Stats → Option ℚ

/-! ## Bars -/

def dayOf (t : Int) : Int := t / 86400000000000

/-- The rows that are used: `ok`. -/
def priced (rows : List TradingRow) : List PricedRow :=
  rows.filterMap fun r => r.p.bind fun p => if 0 < p then some ⟨r.t, p, r.q⟩ else none

/-- The positions held: with `flat_each_day` none at the last row of a day. -/
def managed (flat : Bool) : List PricedRow → List PricedRow
  | [] => []
  | [r] => [if flat then { r with q := 0 } else r]
  | r :: r' :: rest =>
    (if flat && dayOf r'.t != dayOf r.t then { r with q := 0 } else r) :: managed flat (r' :: rest)

/-- What the rows before come to: the price, `q1` and `q2`. -/
structure Held where
  p : Option ℚ := none
  q1 : ℚ := 0
  q2 : ℚ := 0

structure Bar extends PricedRow where
  q1 : ℚ
  /-- `gross_bar`. -/
  gross : ℚ
  /-- `cost * np.abs(q1 - q2)`. -/
  charge : ℚ

def Held.bar (cost : ℚ) (h : Held) (r : PricedRow) : Bar :=
  ⟨r, h.q1, h.q1 * (match h.p with | none => 0 | some p => r.p / p - 1), cost * |h.q1 - h.q2|⟩

def Held.next (h : Held) (r : PricedRow) : Held := ⟨some r.p, r.q, h.q1⟩

def barsFrom (cost : ℚ) (h : Held) : List PricedRow → List Bar
  | [] => []
  | r :: rest => h.bar cost r :: barsFrom cost (h.next r) rest

def byDay (bars : List Bar) : List (List Bar) := bars.splitBy fun b b' => dayOf b.t == dayOf b'.t

/-- `per_day`: what a day returns. -/
def perDay (value : Bar → ℚ) (day : List Bar) : ℚ := (day.map fun b => 1 + max (value b) (-999999 / 1000000)).prod - 1

variable {Stats : Type} (cfg : TradingSettings Stats)

def barsOf (rows : List TradingRow) : List Bar := barsFrom cfg.cost {} (managed cfg.flatEachDay (priced rows))

/-! ## Swings -/

/-- A leg of a day: `align` and `move`. -/
structure LegHeld where
  start : Int
  dir : Dir
  align : ℚ
  move : ℚ

def legsOf (day : List Bar) : List LegHeld :=
  (zigzag (day.map fun b => b.p) cfg.swing).map fun l =>
    let held := ((day.take (l.stop + 1)).drop (l.start + 1)).map fun b => ((SignType.sign b.q1 : Int) : ℚ)
    let price := fun i => (day.map fun b => b.p).getD i 0
    ⟨(day.map fun b => b.t).getD l.start 0, l.dir,
      held.sum / max 1 ((l.stop : ℚ) - l.start) * (if l.dir = .up then 1 else -1), |price l.stop / price l.start - 1|⟩

structure SwingReport where
  legs : Nat
  upCaughtLong : Nat
  downCaughtShort : Nat
  upWhileShort : Nat
  downWhileLong : Nat
  capture : Option ℚ
  days : Nat

/-- `swings`, of the legs of a segment. -/
def swingReport (legs : List LegHeld) : Option SwingReport :=
  if legs = [] then none
  else
    let count := fun (dir : Dir) (sat : ℚ → Bool) => legs.countP fun l => l.dir == dir && sat l.align
    let moved := (legs.map LegHeld.move).sum
    some ⟨legs.length, count .up (1 / 2 ≤ ·), count .down (1 / 2 ≤ ·), count .up (· ≤ -1 / 2), count .down (· ≤ -1 / 2),
      if moved = 0 then none else some (roundTo 4 ((legs.map fun l => l.align * l.move).sum / moved)),
      (legs.map fun l => dayOf l.start).dedup.length⟩

/-! ## Segments -/

/-- `diagnostics` of a segment. -/
structure Diagnostics where
  beforeCosts : Option ℚ
  afterCosts : Option ℚ
  flipped : Option ℚ
  long : Nat
  short : Nat
  tradesPerDay : ℚ
  exposure : Option ℚ
  swings : Option SwingReport

/-- A segment: its statistics, its score and how many days were active when they were too few. -/
structure SegmentReport (Stats : Type) where
  stats : Stats
  score : Option ℚ
  note : Option Nat
  diagnostics : Diagnostics

def Bar.opens (b : Bar) : Bool := SignType.sign b.q ≠ 0 ∧ SignType.sign b.q ≠ SignType.sign b.q1

/-- A segment of its days and its bars. A leg is of one day, and `t[i] < split_t` asks whether that day is before the
split, which is a midnight. -/
def segmentReport (days : List (List Bar)) (bars : List Bar) : Option (SegmentReport Stats) :=
  if days = [] then none
  else
    let net := days.map (perDay fun b => b.gross - b.charge)
    let st := cfg.stats net
    let active := net.countP (· ≠ 0)
    let few := active < cfg.minActiveDays
    let score := if few then none else cfg.score st
    let opens := bars.filter Bar.opens
    let swings := if cfg.holdoutNs = 0 then none else swingReport (days.flatMap (legsOf cfg))
    some ⟨st, score, if few then some active else none,
      ⟨cfg.score (cfg.stats (days.map (perDay Bar.gross))), cfg.score st,
        cfg.score (cfg.stats (days.map (perDay fun b => -b.gross - b.charge))),
        opens.countP (fun b => 0 < b.q), opens.countP (fun b => b.q < 0),
        roundTo 3 (opens.length / max 1 (days.length : ℚ)),
        if bars = [] then none else some (roundTo 4 (bars.countP (fun b => b.q ≠ 0) / bars.length)), swings⟩⟩

/-- `unranked`: no trades, or too few on one side. -/
def unranked (d : Diagnostics) : Option (Nat × Nat) :=
  if cfg.minSideShare ≠ 0 ∧ (d.long + d.short = 0 ∨ (min d.long d.short : ℚ) < cfg.minSideShare * (d.long + d.short : Nat))
  then some (d.long, d.short) else none

/-- What is reported of the in-sample rows: the segment with its diagnostics, and what the notes are made of. -/
structure TradingReport (Stats : Type) where
  inSample : Option (SegmentReport Stats)
  notes : Option (Diagnostics × Option (Nat × Nat))

/-- `trading`, of the in-sample segment; there is a problem with fewer than three priced rows. -/
def tradingInSample (rows : List TradingRow) : Option (TradingReport Stats) :=
  if (priced rows).length < 3 then none
  else
    let bars := barsOf cfg rows
    let segment := segmentReport cfg
      ((byDay bars).filter fun day => day.any fun b => dayOf b.t < dayOf cfg.holdoutNs)
      (bars.filter fun b => b.t < cfg.holdoutNs)
    some ⟨segment, segment.map fun s => (s.diagnostics, unranked cfg s.diagnostics)⟩

/-! ## Bars in two parts -/

section Parts

variable {cfg} {cost : ℚ} {flat : Bool} {h : Held} {xs ys : List PricedRow} {pre post : List TradingRow}

theorem managed_cons (flat : Bool) (r : PricedRow) (rest : List PricedRow) :
    ∃ q later, managed flat (r :: rest) = { r with q } :: later := by
  cases rest with
  | nil => cases flat <;> exact ⟨_, _, rfl⟩
  | cons r' rest =>
    rw [managed]
    split_ifs
    · exact ⟨0, _, rfl⟩
    · exact ⟨r.q, _, rfl⟩

theorem managed_append (apart : ∀ x ∈ xs.getLast?, ∀ y ∈ ys.head?, dayOf y.t ≠ dayOf x.t) :
    managed flat (xs ++ ys) = managed flat xs ++ managed flat ys := by
  induction xs with
  | nil => rfl
  | cons r rest ih =>
    cases rest with
    | nil =>
      cases ys with
      | nil => simp [managed]
      | cons y ys =>
        have other : dayOf y.t ≠ dayOf r.t := apart r rfl y rfl
        simp [managed, other]
    | cons r' rest =>
      have later := ih (by simpa using apart)
      simp only [List.cons_append, managed] at later ⊢
      rw [later]

theorem barsFrom_append :
    barsFrom cost h (xs ++ ys) = barsFrom cost h xs ++ barsFrom cost (xs.foldl Held.next h) ys := by
  induction xs generalizing h with
  | nil => rfl
  | cons r rest ih => rw [List.cons_append, barsFrom, ih, barsFrom, List.foldl_cons, List.cons_append]

theorem t_mem_barsFrom {b : Bar} (mem : b ∈ barsFrom cost h (managed flat xs)) : ∃ r ∈ xs, b.t = r.t := by
  have times : ∀ h ys, (barsFrom cost h ys).map (fun b => b.t) = ys.map fun r => r.t := by
    intro h ys
    induction ys generalizing h with
    | nil => rfl
    | cons r rest ih => rw [barsFrom, List.map_cons, ih]; rfl
  have same : ∀ xs, (managed flat xs).map (fun r => r.t) = xs.map fun r => r.t := by
    intro xs
    induction xs with
    | nil => rfl
    | cons r rest ih =>
      cases rest with
      | nil => cases flat <;> rfl
      | cons r' rest =>
        rw [managed, List.map_cons, ih, List.map_cons]
        split_ifs <;> rfl
  have here := List.mem_map_of_mem (f := fun b => b.t) mem
  rw [times, same] at here
  obtain ⟨r, there, is_⟩ := List.mem_map.mp here
  exact ⟨r, there, is_.symm⟩

theorem before_iff (midnight : 86400000000000 ∣ cfg.holdoutNs) (t : Int) :
    t < cfg.holdoutNs ↔ dayOf t < dayOf cfg.holdoutNs := by
  obtain ⟨k, same⟩ := midnight
  rw [dayOf, dayOf, same]
  omega

def heldBefore (cfg : TradingSettings Stats) (rows : List TradingRow) : Held :=
  (managed cfg.flatEachDay (priced rows)).foldl Held.next {}

theorem barsOf_append (midnight : 86400000000000 ∣ cfg.holdoutNs) (before : ∀ r ∈ pre, r.t < cfg.holdoutNs)
    (after : ∀ r ∈ post, cfg.holdoutNs ≤ r.t) :
    ∃ later, barsOf cfg (pre ++ post) = barsOf cfg pre ++ later ∧
      later = barsFrom cfg.cost (heldBefore cfg pre) (managed cfg.flatEachDay (priced post)) ∧
      (∀ b ∈ barsOf cfg pre, b.t < cfg.holdoutNs) ∧ (∀ b ∈ later, cfg.holdoutNs ≤ b.t) ∧
      heldBefore cfg (pre ++ post) = (managed cfg.flatEachDay (priced post)).foldl Held.next (heldBefore cfg pre) := by
  have timeOf : ∀ {rows : List TradingRow} {r : PricedRow}, r ∈ priced rows → ∃ r' ∈ rows, r'.t = r.t := by
    intro rows r mem
    obtain ⟨r', there, made⟩ := List.mem_filterMap.mp mem
    obtain ⟨p, -, made⟩ := Option.bind_eq_some_iff.mp made
    obtain ⟨-, made⟩ := Option.ite_none_right_eq_some.mp made
    exact ⟨r', there, by rw [← Option.some.inj made]⟩
  have early : ∀ r ∈ priced pre, r.t < cfg.holdoutNs := by
    intro r mem
    obtain ⟨r', there, same⟩ := timeOf mem
    exact same ▸ before r' there
  have late : ∀ r ∈ priced post, cfg.holdoutNs ≤ r.t := by
    intro r mem
    obtain ⟨r', there, same⟩ := timeOf mem
    exact same ▸ after r' there
  have apart : ∀ x ∈ (priced pre).getLast?, ∀ y ∈ (priced post).head?, dayOf y.t ≠ dayOf x.t := by
    intro x last y first same
    have inside := (before_iff midnight x.t).mp (early x (List.mem_of_getLast? last))
    rw [← same, ← before_iff midnight] at inside
    exact absurd inside (not_lt.mpr (late y (List.mem_of_head? first)))
  have rows : priced (pre ++ post) = priced pre ++ priced post := List.filterMap_append
  refine ⟨_, by rw [barsOf, rows, managed_append apart, barsFrom_append]; rfl, rfl, ?_, ?_, ?_⟩
  · intro b mem
    obtain ⟨r, there, same⟩ := t_mem_barsFrom mem
    exact same ▸ early r there
  · intro b mem
    obtain ⟨r, there, same⟩ := t_mem_barsFrom mem
    exact same ▸ late r there
  · rw [heldBefore, rows, managed_append apart, List.foldl_append]
    rfl

theorem tradingInSample_append (midnight : 86400000000000 ∣ cfg.holdoutNs) (before : ∀ r ∈ pre, r.t < cfg.holdoutNs)
    (after : ∀ r ∈ post, cfg.holdoutNs ≤ r.t) (enough : 3 ≤ (priced pre).length) :
    tradingInSample cfg (pre ++ post) =
      let segment := segmentReport cfg (byDay (barsOf cfg pre)) (barsOf cfg pre)
      some ⟨segment, segment.map fun s => (s.diagnostics, unranked cfg s.diagnostics)⟩ := by
  obtain ⟨later, split, -, early, late, -⟩ := barsOf_append midnight before after
  have long : ¬ (priced (pre ++ post)).length < 3 := by
    rw [priced, List.filterMap_append, List.length_append]
    have := enough
    rw [priced] at this
    omega
  have bars : (barsOf cfg (pre ++ post)).filter (fun b => decide (b.t < cfg.holdoutNs)) = barsOf cfg pre := by
    rw [split, List.filter_append, List.filter_eq_self.mpr fun b mem => decide_eq_true (early b mem),
      List.filter_eq_nil_iff.mpr fun b mem => by simpa using late b mem, List.append_nil]
  have apart : ∀ x ∈ (barsOf cfg pre).getLast?, ∀ y ∈ later.head?, (dayOf x.t == dayOf y.t) = false := by
    intro x last y first
    have inside := (before_iff midnight x.t).mp (early x (List.mem_of_getLast? last))
    refine beq_false_of_ne fun same => ?_
    rw [same, ← before_iff midnight] at inside
    exact absurd inside (not_lt.mpr (late y (List.mem_of_head? first)))
  have days : (byDay (barsOf cfg (pre ++ post))).filter (fun day => day.any fun b => dayOf b.t < dayOf cfg.holdoutNs) =
      byDay (barsOf cfg pre) := by
    have kept : ∀ day ∈ byDay (barsOf cfg pre), (day.any fun b => decide (dayOf b.t < dayOf cfg.holdoutNs)) = true := by
      intro day mem
      obtain ⟨b, rest, rfl⟩ := List.exists_cons_of_ne_nil (List.ne_nil_of_mem_splitBy mem)
      have there : b ∈ barsOf cfg pre :=
        List.flatten_splitBy _ (barsOf cfg pre) ▸ List.mem_flatten.mpr ⟨_, mem, List.mem_cons_self⟩
      exact List.any_eq_true.mpr ⟨b, List.mem_cons_self, decide_eq_true ((before_iff midnight b.t).mp (early b there))⟩
    have dropped : ∀ day ∈ byDay later, ¬ (day.any fun b => decide (dayOf b.t < dayOf cfg.holdoutNs)) = true := by
      intro day mem some_
      obtain ⟨b, inDay, inside⟩ := List.any_eq_true.mp some_
      have there : b ∈ later := List.flatten_splitBy _ later ▸ List.mem_flatten.mpr ⟨_, mem, inDay⟩
      exact absurd ((before_iff midnight b.t).mpr (of_decide_eq_true inside)) (not_lt.mpr (late b there))
    rw [split, byDay, List.splitBy_append apart, List.filter_append, ← byDay, ← byDay,
      List.filter_eq_self.mpr kept, List.filter_eq_nil_iff.mpr dropped, List.append_nil]
  simp only [tradingInSample, if_neg long, bars, days]

theorem sum_charge (cost : ℚ) (h : Held) (xs : List PricedRow) :
    ((barsFrom cost h xs).map Bar.charge).sum + cost * |(xs.foldl Held.next h).q1 - (xs.foldl Held.next h).q2| =
      cost * (|h.q1 - h.q2| + ((barsFrom cost h xs).map fun b => |b.q - b.q1|).sum) := by
  induction xs generalizing h with
  | nil => simp [barsFrom]
  | cons r rest ih =>
    have later := ih (h.next r)
    simp only [barsFrom, List.map_cons, List.sum_cons, List.foldl_cons] at later ⊢
    have charge : (h.bar cost r).charge = cost * |h.q1 - h.q2| := rfl
    have change : |(h.bar cost r).q - (h.bar cost r).q1| = |(h.next r).q1 - (h.next r).q2| := rfl
    rw [charge, change]
    linarith

/-- With `flat_each_day` nothing is held over the first row of a day. -/
theorem isChain_overnight (h : Held) (xs : List PricedRow) :
    (barsFrom cost h (managed true xs)).IsChain fun b b' => dayOf b.t ≠ dayOf b'.t → b'.gross = 0 := by
  induction xs generalizing h with
  | nil => exact List.isChain_nil
  | cons r rest ih =>
    cases rest with
    | nil => exact List.isChain_singleton _
    | cons r' rest =>
      have later := ih (h.next (if dayOf r'.t ≠ dayOf r.t then { r with q := 0 } else r))
      obtain ⟨q, rest', same⟩ := managed_cons true r' rest
      simp only [managed, same, barsFrom, Bool.true_and, bne_iff_ne] at later ⊢
      refine List.isChain_cons_cons.mpr ⟨fun other => ?_, later⟩
      split_ifs at other ⊢ with differ
      · simp [Held.bar, Held.next]
      · exact absurd (not_not.mp differ).symm other

end Parts

/-! ## The law -/

/-- The valuation does not know the holdout, charges each change of position in the segment of its row, and with
`flat_each_day` earns nothing overnight. -/
structure TradingLaw (pre post : List TradingRow) : Prop where
  causal : ∀ later later' : List TradingRow, (∀ r ∈ later, cfg.holdoutNs ≤ r.t) → (∀ r ∈ later', cfg.holdoutNs ≤ r.t) →
    tradingInSample cfg (pre ++ later) = tradingInSample cfg (pre ++ later')
  charged : ∀ inSample : Bool,
    let bars := (barsOf cfg (pre ++ post)).filter fun b => decide (b.t < cfg.holdoutNs) == inSample
    (bars.map Bar.charge).sum = cfg.cost * (bars.map fun b => |b.q - b.q1|).sum
  overnight : cfg.flatEachDay = true →
    (barsOf cfg (pre ++ post)).IsChain fun b b' => dayOf b.t ≠ dayOf b'.t → b'.gross = 0

/-- The change of position at the last of some rows, when the positions of each day are closed. -/
def lastChange (rows : List TradingRow) : ℚ := |(heldBefore cfg rows).q1 - (heldBefore cfg rows).q2|

/-- The law holds exactly if three rows before the holdout have a price, and positions do not change at the last row
before the holdout or at the last row of all, unless changes cost nothing. -/
theorem trading_iff {pre post : List TradingRow} (midnight : 86400000000000 ∣ cfg.holdoutNs)
    (before : ∀ r ∈ pre, r.t < cfg.holdoutNs) (after : ∀ r ∈ post, cfg.holdoutNs ≤ r.t) :
    TradingLaw cfg pre post ↔ 3 ≤ (priced pre).length ∧
      (cfg.cost = 0 ∨ lastChange cfg pre = 0 ∧ lastChange cfg (pre ++ post) = 0) := by
  obtain ⟨later, split, made, early, late, held⟩ := barsOf_append midnight before after
  have first : ((barsOf cfg pre).map Bar.charge).sum + cfg.cost * lastChange cfg pre =
      cfg.cost * ((barsOf cfg pre).map fun b => |b.q - b.q1|).sum := by
    have all := sum_charge cfg.cost {} (managed cfg.flatEachDay (priced pre))
    rw [sub_self, abs_zero, zero_add] at all
    exact all
  have second := sum_charge cfg.cost (heldBefore cfg pre) (managed cfg.flatEachDay (priced post))
  rw [← held, ← made] at second
  change _ + cfg.cost * lastChange cfg (pre ++ post) = cfg.cost * (lastChange cfg pre + _) at second
  have inBars : (barsOf cfg (pre ++ post)).filter (fun b => decide (b.t < cfg.holdoutNs) == true) = barsOf cfg pre := by
    rw [split, List.filter_append, List.filter_eq_self.mpr fun b mem => by simpa using early b mem,
      List.filter_eq_nil_iff.mpr fun b mem => by simpa using late b mem, List.append_nil]
  have outBars : (barsOf cfg (pre ++ post)).filter (fun b => decide (b.t < cfg.holdoutNs) == false) = later := by
    rw [split, List.filter_append, List.filter_eq_nil_iff.mpr fun b mem => by simpa using early b mem,
      List.filter_eq_self.mpr fun b mem => by simpa using late b mem, List.nil_append]
  constructor
  · intro law
    have enough : 3 ≤ (priced pre).length := by
      by_contra short
      have less : (priced pre).length < 3 := by omega
      have long : ¬ (priced (pre ++ List.replicate 3 ⟨cfg.holdoutNs, some 1, 0⟩)).length < 3 := by
        simp [priced, List.filterMap_append]
      have reports := law.causal [] (List.replicate 3 ⟨cfg.holdoutNs, some 1, 0⟩) (by simp) (by simp)
      rw [List.append_nil, tradingInSample, if_pos less, tradingInSample, if_neg long] at reports
      contradiction
    refine ⟨enough, ?_⟩
    have inside := law.charged true
    have outside := law.charged false
    simp only [inBars] at inside
    simp only [outBars] at outside
    rcases eq_or_ne cfg.cost 0 with free | costs
    · exact .inl free
    · have lastIn : cfg.cost * lastChange cfg pre = 0 := by linarith
      have none_ : lastChange cfg pre = 0 := (mul_eq_zero.mp lastIn).resolve_left costs
      have last : cfg.cost * lastChange cfg (pre ++ post) = 0 := by
        rw [none_] at second
        linarith
      exact .inr ⟨none_, (mul_eq_zero.mp last).resolve_left costs⟩
  · rintro ⟨enough, either⟩
    have none_ : cfg.cost * lastChange cfg pre = 0 ∧ cfg.cost * lastChange cfg (pre ++ post) = 0 := by
      rcases either with free | ⟨lastIn, last⟩
      · simp [free]
      · simp [lastIn, last]
    refine ⟨fun later later' after after' => ?_, fun inSample => ?_, fun flat => ?_⟩
    · rw [tradingInSample_append midnight before after enough, tradingInSample_append midnight before after' enough]
    · cases inSample with
      | true =>
        simp only [inBars]
        linarith
      | false =>
        simp only [outBars]
        linarith
    · rw [barsOf, flat]
      exact isChain_overnight _ _

/-- How the examples are valued: a change costs a hundredth, and positions are closed each day. -/
def closing : TradingSettings Rat :=
  ⟨86400000000000, 1 / 100, true, 0, 0, 1 / 400, List.sum, some⟩

/-- A day whose last row has nothing to close, and a row of the next day. -/
theorem trading_closed :
    TradingLaw closing [⟨0, some 1, 1⟩, ⟨1, some 2, 0⟩, ⟨2, some 3, 0⟩] [⟨86400000000000, some 4, 0⟩] :=
  (trading_iff closing (by decide) (by decide) (by decide)).mpr
    ⟨by with_unfolding_all decide, .inr (by with_unfolding_all decide)⟩

/-- A position that is closed at the last row of the day is charged on the next day, in the holdout. -/
theorem trading_not_charged :
    ¬ TradingLaw closing [⟨0, some 1, 1⟩, ⟨1, some 2, 1⟩, ⟨2, some 3, 1⟩] [⟨86400000000000, some 4, 0⟩] := by
  intro law
  have charged := law.charged true
  revert charged
  with_unfolding_all decide

end FreeSwarm.TaskKit
