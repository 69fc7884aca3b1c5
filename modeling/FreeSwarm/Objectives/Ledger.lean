import FreeSwarm.Foundation.Distinct
import FreeSwarm.Foundation.NpFloat
import Mathlib.Algebra.BigOperators.Group.Finset.Piecewise
import Mathlib.Algebra.BigOperators.Group.Finset.Sigma
import Mathlib.Algebra.BigOperators.Intervals
import Mathlib.Tactic.Linarith

/-!
# The ledger of trades and mark-to-market

Reported positions are held over the bars of the data. `_mark_to_market` reckons what they earn and pay by day,
`_trade_table` by trade. Moments are in microseconds, and numbers are exact.
-/

namespace FreeSwarm.Objectives.Ledger

open FreeSwarm.Foundation

/-! ## Positions that are held -/

inductive Direction where
  /-- `"long"`. -/
  | long
  /-- `"short"`. -/
  | short
  /-- `"both"`. -/
  | both

/-- What an objective says of positions. -/
structure Setup where
  direction : Direction
  maxLeverage : ℚ
  /-- `cost_bps / 10_000.0`. -/
  cost : ℚ
  intraday : Bool
  /-- `split_date`. -/
  split : Option Int

variable (m : Setup)

/-- `pos_clip`, within `pos_bounds`. -/
def posClip (pos : Option ℚ) : ℚ :=
  let lo := match m.direction with
    | .long => 0
    | _ => -m.maxLeverage
  let hi := match m.direction with
    | .short => 0
    | _ => m.maxLeverage
  max lo (min hi (pos.getD 0))

def dayOf (t : Int) : Int := t / 86400000000

variable (rows : List (Option Int × Option ℚ))

def priced : List (Int × ℚ) :=
  rows.filterMap fun row => row.1.bind fun t => row.2.bind fun p => if 0 < p then some (t, p) else none

/-- The moments of `px`. -/
def pxTimes : List Int := distinct ((priced rows).map Prod.fst)

/-- The price of `px` at a moment. -/
def pxPrice (t : Int) : ℚ :=
  let prices := ((priced rows).filter fun row => row.1 = t).map Prod.snd
  prices.foldr (· + ·) 0 / prices.length

/-- `ASOF LEFT JOIN`: the position that is reported last up to a moment. -/
def asOf (stream : List (Int × Option ℚ)) (t : Int) : Option (Int × Option ℚ) :=
  (stream.filter fun row => row.1 ≤ t).foldl
    (fun latest row => if latest.all fun row' => row'.1 ≤ row.1 then some row else latest) none

/-- `held_sql`: the position over a bar. -/
def heldSql (times : List Int) (stream : List (Int × Option ℚ)) (t : Int) : ℚ :=
  if m.intraday && times.all fun t' => decide (dayOf t' = dayOf t → t' ≤ t) then 0
  else ((asOf stream t).map fun row => posClip m row.2).getD 0

/-- The bars with the positions over them. -/
structure Book where
  n : Nat
  t : Nat → Int
  p : Nat → ℚ
  q : Nat → ℚ

/-- What both sides read of the data and the positions. -/
def bookOf (stream : List (Int × Option ℚ)) : Book :=
  let times := pxTimes rows
  { n := times.length
    t := fun i => times.getD i 0
    p := fun i => pxPrice rows (times.getD i 0)
    q := fun i => heldSql m times stream (times.getD i 0) }

variable (b : Book)

variable (i : Nat)

def Book.day : Int := dayOf (b.t i)

def Book.sign : Int := sgn (b.q i)

/-- `qp`: the position before. -/
def Book.qp : ℚ := if i = 0 then 0 else b.q (i - 1)

def Book.sp : Int := sgn (b.qp i)

/-- `g`: what the position before earns over a bar. -/
def Book.earned : ℚ := if i = 0 then 0 else b.q (i - 1) * (b.p i / b.p (i - 1) - 1)

/-! ## Trades -/

def Book.opens : Bool := decide (b.sign i ≠ 0) && decide (b.sign i ≠ b.sp i)

/-- `ntr`. -/
def Book.trades : Nat := (List.range b.n).countP b.opens

/-- `tid`: the trade of a bar. -/
def Book.tid : Int :=
  if b.sign i ≠ 0 then ((List.range (i + 1)).countP b.opens : Int) - 1 else -1

/-- `held`: the trade whose position is held over the bar that ends. -/
def Book.held : Int := if i = 0 then -1 else b.tid (i - 1)

/-- What is left of a return that is lower. -/
def least : ℚ := -999999 / 1000000

/-- `gross`: what a trade earns. -/
def Book.gross (k : Nat) : ℚ := (∏ i ∈ Finset.range b.n with b.held i = k, (1 + max (b.earned i) least)) - 1

/-- The position keeps its side. -/
def Book.same : Bool := decide (b.sign i = b.sp i) && decide (b.sign i ≠ 0)

/-- What a trade turns over at a bar: resizes, exits and entries. -/
def Book.turnAt (k i : Nat) : ℚ :=
  (if b.same i && decide (b.q i ≠ b.qp i) then if b.tid i = k then |b.q i - b.qp i| else 0 else 0) +
    (if !b.same i && decide (b.qp i ≠ 0) then if b.held i = k then |b.qp i| else 0 else 0) +
    if !b.same i && decide (b.q i ≠ 0) then if b.tid i = k then |b.q i| else 0 else 0

def Book.turn (k : Nat) : ℚ := ∑ i ∈ Finset.range b.n, b.turnAt k i

def Book.net (k : Nat) : ℚ := b.gross k - m.cost * b.turn k

/-- `first`: where trades open. -/
def Book.first : List Nat := (List.range b.n).filter b.opens

def Setup.inSample (t : Int) : Bool := m.split.all fun split => decide (t < split)

/-- How many trades of a side open before the split, by `entry_t` and `side`. -/
def Book.tradesOf (side : Int) : Nat :=
  (b.first.map fun i => (b.t i, b.sign i)).countP fun trade => decide (trade.2 = side) && m.inSample trade.1

/-! ## Days -/

def Book.days : List Int := distinct ((List.range b.n).map b.day)

/-- `pos` of the bar before the one before. -/
def Book.p2 : ℚ := if i < 2 then 0 else b.q (i - 2)

/-- What is charged at a bar: the change at the bar before. -/
def Book.charged : ℚ := |b.qp i - b.p2 i|

/-- `rg`: what a day earns. -/
def Book.rg (d : Int) : ℚ := (∏ i ∈ Finset.range b.n with b.day i = d, (1 + b.earned i)) - 1

/-- `r`: what a day earns after costs. -/
def Book.r (d : Int) : ℚ :=
  (∏ i ∈ Finset.range b.n with b.day i = d, (1 + b.earned i - m.cost * b.charged i)) - 1

/-- `sides`: the bars before the split whose side is that one and not that of the bar before. -/
def Book.sides (side : Int) : Nat :=
  (List.range b.n).countP fun i =>
    decide (b.sign i = side) && decide (some (b.sign i) ≠ if i = 0 then none else some (b.sign (i - 1))) &&
      m.inSample (b.t i)

/-! ## The trades of bars -/

section Trades

variable {b : Book} {i j k : Nat}

theorem qp_succ (i : Nat) : b.qp (i + 1) = b.q i := by rw [Book.qp, if_neg (Nat.succ_ne_zero i), Nat.add_sub_cancel]

theorem held_succ (i : Nat) : b.held (i + 1) = b.tid i := by
  rw [Book.held, if_neg (Nat.succ_ne_zero i), Nat.add_sub_cancel]

theorem opened (sided : b.sign i ≠ 0) : 0 < (List.range (i + 1)).countP b.opens := by
  induction i with
  | zero =>
    have opens : b.opens 0 = true := by
      have flat : b.sp 0 = 0 := by rw [Book.sp, Book.qp, if_pos rfl, sgn_zero]
      simp [Book.opens, sided, flat]
    exact List.countP_pos_iff.mpr ⟨0, by simp, opens⟩
  | succ i ih =>
    by_cases opens : b.opens (i + 1) = true
    · exact List.countP_pos_iff.mpr ⟨i + 1, by simp, opens⟩
    · have same : b.sign (i + 1) = b.sign i := by
        have sp : b.sp (i + 1) = b.sign i := by rw [Book.sp, qp_succ, Book.sign]
        by_contra differ
        exact opens (by simp [Book.opens, sided, sp, differ])
      have earlier := ih (same ▸ sided)
      rw [List.range_succ, List.countP_append]
      omega

theorem tid_range (inside : i < b.n) (sided : b.sign i ≠ 0) : 0 ≤ b.tid i ∧ b.tid i < b.trades := by
  have some_ := opened sided
  have le : (List.range (i + 1)).countP b.opens ≤ b.trades :=
    (List.range_sublist.mpr inside).countP_le
  rw [Book.tid, if_pos sided]
  omega

theorem tid_nonneg_iff : 0 ≤ b.tid i ↔ b.sign i ≠ 0 := by
  constructor
  · intro at_ flat
    rw [Book.tid, if_neg (not_not.mpr flat)] at at_
    omega
  · intro sided
    have some_ := opened sided
    rw [Book.tid, if_pos sided]
    omega

theorem earned_of_not_held (none_ : ¬0 ≤ b.held i) : b.earned i = 0 := by
  cases i with
  | zero => rw [Book.earned, if_pos rfl]
  | succ i =>
    rw [held_succ, tid_nonneg_iff, not_not, Book.sign, sgn_eq_zero] at none_
    rw [Book.earned, if_neg (Nat.succ_ne_zero i), Nat.add_sub_cancel, none_, zero_mul]

theorem held_lt (inside : i < b.n) (some_ : 0 ≤ b.held i) : b.held i < b.trades := by
  cases i with
  | zero =>
    rw [Book.held, if_pos rfl] at some_
    omega
  | succ i =>
    rw [held_succ] at some_ ⊢
    exact (tid_range (Nat.lt_of_succ_lt inside) (tid_nonneg_iff.mp some_)).2

theorem prod_trades (f : Nat → ℚ) (one : ∀ i, ¬0 ≤ b.held i → f i = 1) :
    ∏ k ∈ Finset.range b.trades, ∏ i ∈ Finset.range b.n with b.held i = k, f i = ∏ i ∈ Finset.range b.n, f i := by
  have inner : ∀ k : Nat, ((Finset.range b.n).filter fun i => b.held i = k) =
      ((Finset.range b.n).filter fun i => 0 ≤ b.held i).filter fun i => (b.held i).toNat = k := by
    intro k
    ext i
    simp only [Finset.mem_filter]
    constructor
    · rintro ⟨inside, is_⟩
      exact ⟨⟨inside, by omega⟩, by omega⟩
    · rintro ⟨⟨inside, some_⟩, is_⟩
      exact ⟨inside, by omega⟩
  simp only [inner]
  rw [Finset.prod_fiberwise_of_maps_to]
  · refine Finset.prod_subset (Finset.filter_subset _ _) fun i mem out => one i fun some_ => ?_
    exact out (Finset.mem_filter.mpr ⟨mem, some_⟩)
  · intro i mem
    obtain ⟨inside, some_⟩ := Finset.mem_filter.mp mem
    have lt := held_lt (Finset.mem_range.mp inside) some_
    exact Finset.mem_range.mpr (by omega)

theorem prod_days (f : Nat → ℚ) :
    (b.days.map fun d => ∏ i ∈ Finset.range b.n with b.day i = d, f i).prod = ∏ i ∈ Finset.range b.n, f i := by
  rw [Book.days, ← List.prod_toFinset _ (distinct_nodup _)]
  refine Finset.prod_fiberwise_of_maps_to (fun i mem => ?_) f
  rw [List.mem_toFinset, mem_distinct]
  exact List.mem_map_of_mem (List.mem_range.mpr (Finset.mem_range.mp mem))

theorem sum_at {x : Int} (from_ : 0 ≤ x) (before : x < b.trades) (v : ℚ) :
    ∑ k ∈ Finset.range b.trades, (if x = k then v else 0) = v := by
  obtain ⟨k, rfl⟩ := Int.eq_ofNat_of_zero_le from_
  have inside : k ∈ Finset.range b.trades := Finset.mem_range.mpr (by omega)
  simp only [Nat.cast_inj, Finset.sum_ite_eq, inside, if_true]

theorem sum_if_at {x : Int} {c : Bool} (inside : c = true → 0 ≤ x ∧ x < b.trades) (v : ℚ) :
    ∑ k ∈ Finset.range b.trades, (if c then if x = k then v else 0 else 0) = if c then v else 0 := by
  cases c with
  | false => simp
  | true => simpa using sum_at (inside rfl).1 (inside rfl).2 v

theorem abs_sub_of_turned {x y : ℚ} (differ : sgn x ≠ sgn y) : |y| + |x| = |x - y| := by
  rcases lt_trichotomy x 0 with low | rfl | high
  · rcases lt_trichotomy y 0 with low' | rfl | high'
    · exact absurd ((sgn_of_neg low).trans (sgn_of_neg low').symm) differ
    · simp
    · rw [abs_of_pos high', abs_of_neg low, abs_of_neg (by linarith)]
      ring
  · simp
  · rcases lt_trichotomy y 0 with low' | rfl | high'
    · rw [abs_of_neg low', abs_of_pos high, abs_of_pos (by linarith)]
      ring
    · simp
    · exact absurd ((sgn_of_pos high).trans (sgn_of_pos high').symm) differ

theorem sum_turnAt (inside : i < b.n) : ∑ k ∈ Finset.range b.trades, b.turnAt k i = |b.q i - b.qp i| := by
  have sided : b.sign i ≠ 0 → 0 ≤ b.tid i ∧ b.tid i < b.trades := tid_range inside
  have left : b.qp i ≠ 0 → 0 ≤ b.held i ∧ b.held i < b.trades := by
    intro some_
    cases i with
    | zero => exact absurd (by rw [Book.qp, if_pos rfl]) some_
    | succ i =>
      rw [qp_succ] at some_
      rw [held_succ]
      exact tid_range (Nat.lt_of_succ_lt inside) fun flat => some_ (sgn_eq_zero.mp flat)
  simp only [Book.turnAt, Finset.sum_add_distrib]
  rw [sum_if_at, sum_if_at, sum_if_at]
  · cases same : b.same i with
    | true =>
      by_cases resized : b.q i = b.qp i
      · simp [resized]
      · simp [resized]
    | false =>
      have turned : b.sign i ≠ b.sp i ∨ b.sign i = 0 := by
        by_contra both
        rw [not_or, not_not] at both
        rw [Book.same, decide_eq_true both.1, decide_eq_true both.2] at same
        exact absurd same (by decide)
      have change : |b.qp i| + |b.q i| = |b.q i - b.qp i| := by
        rcases turned with differ | flat
        · exact abs_sub_of_turned differ
        · rw [sgn_eq_zero.mp flat]
          simp
      by_cases none_ : b.q i = 0
      · by_cases none_' : b.qp i = 0
        · simp [none_, none_']
        · simp [none_, none_']
      · by_cases none_' : b.qp i = 0
        · simp [none_, none_']
        · simpa [none_, none_'] using change
  · intro entered
    exact sided fun flat => by simp [sgn_eq_zero.mp flat] at entered
  · intro exited
    exact left fun flat => by simp [flat] at exited
  · intro resized
    rw [Bool.and_eq_true, Book.same, Bool.and_eq_true] at resized
    exact sided (of_decide_eq_true resized.1.2)

theorem charged_succ (i : Nat) : b.charged (i + 1) = |b.q i - b.qp i| := by
  have p2 : b.p2 (i + 1) = b.qp i := by
    cases i with
    | zero => rfl
    | succ i => rw [Book.p2, if_neg (by omega), qp_succ]; rfl
  rw [Book.charged, qp_succ, p2]

theorem charged_zero : b.charged 0 = 0 := by simp [Book.charged, Book.qp, Book.p2]

theorem sum_turn (last : Nat) (is_ : b.n = last + 1) :
    ∑ k ∈ Finset.range b.trades, b.turn k =
      ∑ i ∈ Finset.range b.n, b.charged i + |b.q last - b.qp last| := by
  have changes : ∑ k ∈ Finset.range b.trades, b.turn k = ∑ i ∈ Finset.range b.n, |b.q i - b.qp i| := by
    simp only [Book.turn]
    rw [Finset.sum_comm]
    exact Finset.sum_congr rfl fun i mem => sum_turnAt (Finset.mem_range.mp mem)
  rw [changes, is_, Finset.sum_range_succ, Finset.sum_range_succ' b.charged, charged_zero, add_zero]
  simp only [charged_succ]

theorem tradesOf_eq_sides (m : Setup) {side : Int} (some_ : side ≠ 0) : b.tradesOf m side = b.sides m side := by
  rw [Book.tradesOf, Book.first, List.countP_map, List.countP_filter, Book.sides]
  refine List.countP_congr fun i _ => ?_
  have before : b.sp i = if i = 0 then 0 else b.sign (i - 1) := by
    rw [Book.sp, Book.qp]
    split
    · exact sgn_zero
    · rfl
  simp only [Function.comp_apply, Book.opens, before, Bool.and_eq_true, decide_eq_true_eq]
  by_cases first : i = 0
  · subst first
    constructor
    · rintro ⟨⟨is_, early⟩, -⟩
      exact ⟨⟨is_, by simp⟩, early⟩
    · rintro ⟨⟨is_, -⟩, early⟩
      exact ⟨⟨is_, early⟩, is_ ▸ some_, by simpa [is_] using some_⟩
  · simp only [if_neg first, ne_eq, Option.some.injEq]
    constructor
    · rintro ⟨⟨is_, early⟩, -, differ⟩
      exact ⟨⟨is_, differ⟩, early⟩
    · rintro ⟨⟨is_, differ⟩, early⟩
      exact ⟨⟨is_, early⟩, is_ ▸ some_, differ⟩

end Trades

/-! ## Nights -/

theorem last_of_day {times : List Int} (sorted : times.Pairwise (· < ·)) {i : Nat} (inside : i + 1 < times.length)
    (night : dayOf times[i] ≠ dayOf times[i + 1]) {t : Int} (mem : t ∈ times) (same : dayOf t = dayOf times[i]) :
    t ≤ times[i] := by
  have up := List.pairwise_iff_getElem.mp sorted
  have mono : ∀ {t t' : Int}, t ≤ t' → dayOf t ≤ dayOf t' := fun le => Int.ediv_le_ediv (by decide) le
  obtain ⟨j, inside', rfl⟩ := List.getElem_of_mem mem
  by_contra later
  rw [not_le] at later
  have after : i < j := by
    by_contra early
    rcases Nat.lt_or_eq_of_le (not_lt.mp early) with less | rfl
    · exact absurd later (up j i inside' (by omega) less).not_gt
    · exact lt_irrefl _ later
  have next : times[i + 1] ≤ times[j] := by
    rcases Nat.lt_or_eq_of_le (Nat.succ_le_of_lt after) with less | rfl
    · exact (up (i + 1) j inside inside' less).le
    · exact le_refl _
  have first := mono (up i (i + 1) (by omega) inside (Nat.lt_succ_self i)).le
  exact night (le_antisymm first ((mono next).trans_eq same))

theorem earned_overnight (m : Setup) {rows : List (Option Int × Option ℚ)} {stream : List (Int × Option ℚ)} {i : Nat}
    (within : m.intraday = true) (inside : i + 1 < (bookOf m rows stream).n)
    (night : (bookOf m rows stream).day i ≠ (bookOf m rows stream).day (i + 1)) :
    (bookOf m rows stream).earned (i + 1) = 0 := by
  have inside' : i + 1 < (pxTimes rows).length := inside
  have at_ : (pxTimes rows).getD i 0 = (pxTimes rows)[i] := by
    rw [List.getD_eq_getElem?_getD, List.getElem?_eq_getElem (by omega), Option.getD_some]
  have at_' : (pxTimes rows).getD (i + 1) 0 = (pxTimes rows)[i + 1] := by
    rw [List.getD_eq_getElem?_getD, List.getElem?_eq_getElem inside', Option.getD_some]
  have night' : dayOf (pxTimes rows)[i] ≠ dayOf (pxTimes rows)[i + 1] := by
    rw [← at_, ← at_']
    exact night
  have flat : heldSql m (pxTimes rows) stream (pxTimes rows)[i] = 0 := by
    refine if_pos ?_
    rw [within, Bool.true_and, List.all_eq_true]
    exact fun t mem => decide_eq_true fun same => last_of_day (distinct_sorted _) inside' night' mem same
  have none_ : (bookOf m rows stream).q i = 0 := by
    show heldSql m (pxTimes rows) stream ((pxTimes rows).getD i 0) = 0
    rw [at_, flat]
  rw [Book.earned, if_neg (Nat.succ_ne_zero i), Nat.add_sub_cancel, none_, zero_mul]

/-! ## Agreement -/

/-- The ledger of trades and mark-to-market agree. -/
structure Agree (b : Book) : Prop where
  earned : (∀ i < b.n, least ≤ b.earned i) →
    ∏ k ∈ Finset.range b.trades, (1 + b.gross k) = (b.days.map fun d => 1 + b.rg d).prod
  tradesCharged : ∀ i < b.n, ∑ k ∈ Finset.range b.trades, b.turnAt k i = |b.q i - b.qp i|
  daysCharged : b.charged 0 = 0 ∧ ∀ i, b.charged (i + 1) = |b.q i - b.qp i|
  turnover : ∀ last, b.n = last + 1 → ∑ k ∈ Finset.range b.trades, b.turn k =
    ∑ i ∈ Finset.range b.n, b.charged i + |b.q last - b.qp last|
  sides : ∀ side : Int, side ≠ 0 → b.tradesOf m side = b.sides m side
  nights : m.intraday = true → ∀ i, i + 1 < b.n → b.day i ≠ b.day (i + 1) → b.earned (i + 1) = 0

/-- Both sides agree on all prices and positions. -/
theorem ledger_agrees (rows : List (Option Int × Option ℚ)) (stream : List (Int × Option ℚ)) :
    Agree m (bookOf m rows stream) := by
  refine { earned := fun above => ?_, tradesCharged := fun i inside => sum_turnAt inside,
           daysCharged := ⟨charged_zero, charged_succ⟩, turnover := sum_turn,
           sides := fun side some_ => tradesOf_eq_sides m some_,
           nights := fun within i inside night => earned_overnight m within inside night }
  have trades : ∀ k, 1 + (bookOf m rows stream).gross k =
      ∏ i ∈ Finset.range (bookOf m rows stream).n with (bookOf m rows stream).held i = k,
        (1 + (bookOf m rows stream).earned i) := by
    intro k
    rw [Book.gross, add_sub_cancel]
    refine Finset.prod_congr rfl fun i mem => ?_
    rw [max_eq_left (above i (Finset.mem_range.mp (Finset.mem_filter.mp mem).1))]
  have days : ∀ d, 1 + (bookOf m rows stream).rg d =
      ∏ i ∈ Finset.range (bookOf m rows stream).n with (bookOf m rows stream).day i = d,
        (1 + (bookOf m rows stream).earned i) := fun d => by rw [Book.rg, add_sub_cancel]
  simp only [trades, days]
  rw [prod_days, prod_trades]
  exact fun i none_ => by rw [earned_of_not_held none_, add_zero]

def shortTrebled : Book :=
  bookOf { direction := .both, maxLeverage := 1, cost := 0, intraday := false, split := none }
    [(some 0, some 1), (some 60000000, some 3)] [(0, some (-1)), (60000000, some 0)]

/-- The trade is left a millionth where the day loses twice what there was, and it alone is charged the exit at the
last bar. -/
theorem ledger_agrees_not_always :
    (¬∀ (m : Setup) (rows : List (Option Int × Option ℚ)) (stream : List (Int × Option ℚ)),
      ∏ k ∈ Finset.range (bookOf m rows stream).trades, (1 + (bookOf m rows stream).gross k) =
        ((bookOf m rows stream).days.map fun d => 1 + (bookOf m rows stream).rg d).prod) ∧
    ¬∀ (m : Setup) (rows : List (Option Int × Option ℚ)) (stream : List (Int × Option ℚ)),
      ∑ k ∈ Finset.range (bookOf m rows stream).trades, (bookOf m rows stream).turn k =
        ∑ i ∈ Finset.range (bookOf m rows stream).n, (bookOf m rows stream).charged i := by
  constructor
  · intro always
    have same : ∏ k ∈ Finset.range shortTrebled.trades, (1 + shortTrebled.gross k) =
        (shortTrebled.days.map fun d => 1 + shortTrebled.rg d).prod := always _ _ _
    exact absurd same (by with_unfolding_all decide)
  · intro always
    have same : ∑ k ∈ Finset.range shortTrebled.trades, shortTrebled.turn k =
        ∑ i ∈ Finset.range shortTrebled.n, shortTrebled.charged i := always _ _ _
    exact absurd same (by with_unfolding_all decide)

end FreeSwarm.Objectives.Ledger
