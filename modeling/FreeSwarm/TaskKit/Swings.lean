import FreeSwarm.Foundation.Machine
import Mathlib.Algebra.Order.Field.Basic
import Mathlib.Algebra.Order.Field.Rat
import Mathlib.Data.List.Chain
import Mathlib.Tactic.Linarith

/-!
# Swing legs

`zigzag` cuts a stretch of prices into legs that go up and down in turn. A leg ends at a row from which the price went
back by a threshold; what the price did before a leg was confirmed is not looked at again.
-/

namespace FreeSwarm.TaskKit

variable {α : Type} [Field α] [LinearOrder α]

/-! ## Legs -/

/-- Which way a leg goes. -/
inductive Dir where
  | up
  | down
  deriving DecidableEq, Repr

/-- A leg: `(start, end, +1 up / -1 down)`. -/
structure Leg where
  start : Nat
  stop : Nat
  dir : Dir
  deriving DecidableEq, Repr

/-- The price `thr` above another. -/
def raised (thr x : α) : α := x * (1 + thr)

/-- The price `thr` below another. -/
def lowered (thr x : α) : α := x * (1 - thr)

/-- What the scan keeps from row to row. -/
structure Scan where
  legs : List Leg := []
  /-- `d`; 0 is none. -/
  d : Option Dir := none
  piv : Nat := 0
  ext : Nat := 0
  lo : Nat := 0
  hi : Nat := 0

def Scan.step (p : Nat → α) (thr : α) (s : Scan) (i : Nat) : Scan :=
  let x := p i
  match s.d with
  | none =>
    let lo := if x < p s.lo then i else s.lo
    let hi := if x > p s.hi then i else s.hi
    if x ≥ raised thr (p lo) then { s with d := some .up, piv := lo, ext := i, lo, hi }
    else if x ≤ lowered thr (p hi) then { s with d := some .down, piv := hi, ext := i, lo, hi }
    else { s with lo, hi }
  | some .up =>
    if x > p s.ext then { s with ext := i }
    else if x ≤ lowered thr (p s.ext) then
      { s with legs := s.legs ++ [⟨s.piv, s.ext, .up⟩], d := some .down, piv := s.ext, ext := i }
    else s
  | some .down =>
    if x < p s.ext then { s with ext := i }
    else if x ≥ raised thr (p s.ext) then
      { s with legs := s.legs ++ [⟨s.piv, s.ext, .down⟩], d := some .up, piv := s.ext, ext := i }
    else s

/-- The legs when the rows end here: those confirmed, and the one under way. -/
def Scan.told (s : Scan) : List Leg :=
  match s.d with
  | none => s.legs
  | some d => s.legs ++ [⟨s.piv, s.ext, d⟩]

/-- The scan that both copies of the algorithm are. -/
def swingLegs (p : List α) (thr : α) : List Leg :=
  if p.length < 2 then []
  else ((List.range' 1 (p.length - 1)).foldl (Scan.step (p.getD · 0) thr) {}).told

/-- `zigzag` of the task servers. -/
def zigzag (p : List α) (thr : α) : List Leg := swingLegs p thr

/-- `_zigzag` of the control plane. -/
def zigzagOfObjectives (p : List α) (thr : α) : List Leg := swingLegs p thr

/-! ## What legs are -/

variable (p : Nat → α) (thr : α)

/-- From one row to another the price rises by the threshold or more. -/
def Rises (j k : Nat) : Prop := raised thr (p j) ≤ p k

/-- From one row to another the price falls by the threshold or more. -/
def Falls (j k : Nat) : Prop := p k ≤ lowered thr (p j)

structure UpLeg (a b : Nat) : Prop where
  spans : a < b
  moved : Rises p thr a b
  highest : ∀ k, a ≤ k → k ≤ b → p k ≤ p b
  lowest : ∀ k, a ≤ k → k ≤ b → lowered thr (raised thr (p a)) < p k
  steady : ∀ j k, a ≤ j → j < k → k ≤ b → ¬ Falls p thr j k

structure DownLeg (a b : Nat) : Prop where
  spans : a < b
  moved : Falls p thr a b
  lowest : ∀ k, a ≤ k → k ≤ b → p b ≤ p k
  highest : ∀ k, a ≤ k → k ≤ b → p k ≤ p a
  steady : ∀ j k, a ≤ j → j < k → k ≤ b → (∃ m, a ≤ m ∧ m ≤ k ∧ Falls p thr a m) → ¬ Rises p thr j k

def LegLaw (l : Leg) : Prop :=
  match l.dir with
  | .up => UpLeg p thr l.start l.stop
  | .down => DownLeg p thr l.start l.stop

/-- What holds of the legs of the first `n` rows. -/
structure SwingLaw (n : Nat) (legs : List Leg) : Prop where
  inside : ∀ l ∈ legs, l.stop < n
  chained : legs.IsChain fun l l' => l'.start = l.stop ∧ l'.dir ≠ l.dir
  each : ∀ l ∈ legs, LegLaw p thr l
  calm : ∀ l ∈ legs.head?, l.dir = .down → ∀ j k, l.start ≤ j → j < k → k ≤ l.stop → ¬ Rises p thr j k
  quiet : ∀ j k, j < k → k < n → (∀ l ∈ legs.head?, k ≤ l.start) → ¬ Rises p thr j k ∧ ¬ Falls p thr j k

/-! ## Thresholds -/

section Thresholds

variable {p thr} [IsStrictOrderedRing α] {x y : α}

theorem raised_mono (above : 0 < thr) (le : x ≤ y) : raised thr x ≤ raised thr y :=
  mul_le_mul_of_nonneg_right le (by linarith)

theorem lowered_mono (below : thr < 1) (le : x ≤ y) : lowered thr x ≤ lowered thr y :=
  mul_le_mul_of_nonneg_right le (by linarith)

theorem lt_raised (above : 0 < thr) (positive : 0 < x) : x < raised thr x :=
  lt_mul_of_one_lt_right positive (by linarith)

theorem lowered_lt (above : 0 < thr) (positive : 0 < x) : lowered thr x < x :=
  mul_lt_of_lt_one_right positive (by linarith)

theorem lowered_raised_lt (above : 0 < thr) (positive : 0 < x) : lowered thr (raised thr x) < x := by
  have square : 0 < thr * thr := mul_pos above above
  have less : x * ((1 + thr) * (1 - thr)) < x := mul_lt_of_lt_one_right positive (by linarith)
  simpa only [lowered, raised, mul_assoc] using less

theorem raised_lowered_lt (above : 0 < thr) (positive : 0 < x) : raised thr (lowered thr x) < x := by
  have same : raised thr (lowered thr x) = lowered thr (raised thr x) := mul_right_comm x (1 - thr) (1 + thr)
  rw [same]
  exact lowered_raised_lt above positive

end Thresholds

/-! ## Legs that grow -/

section Legs

variable {p thr} [IsStrictOrderedRing α] {a b i : Nat}

theorem UpLeg.grow (above : 0 < thr) (below : thr < 1) (leg : UpLeg p thr a b) (later : b < i)
    (between : ∀ k, b < k → k < i → p k ≤ p b ∧ ¬ Falls p thr b k) (higher : p b < p i)
    (positive : ∀ k, k ≤ i → 0 < p k) : UpLeg p thr a i := by
  have under : ∀ k, a ≤ k → k < i → p k ≤ p b := by
    intro k from_ to_
    rcases Nat.lt_or_ge b k with behind | within
    · exact (between k behind to_).1
    · exact leg.highest k from_ within
  refine ⟨leg.spans.trans later, leg.moved.trans higher.le, ?_, ?_, ?_⟩
  · intro k from_ to_
    rcases Nat.lt_or_eq_of_le to_ with less | rfl
    · exact (under k from_ less).trans higher.le
    · exact le_rfl
  · intro k from_ to_
    rcases Nat.lt_or_ge b k with behind | within
    · have bottom : lowered thr (raised thr (p a)) ≤ lowered thr (p b) := lowered_mono below leg.moved
      rcases Nat.lt_or_eq_of_le to_ with less | rfl
      · exact bottom.trans_lt (not_le.mp (between k behind less).2)
      · exact bottom.trans_lt ((lowered_lt above (positive b later.le)).trans higher)
    · exact leg.lowest k from_ within
  · intro j k from_ order to_ falls
    rcases Nat.lt_or_ge b k with behind | within
    · rcases Nat.lt_or_eq_of_le to_ with less | rfl
      · exact (between k behind less).2 (falls.trans (lowered_mono below (under j from_ (order.trans less))))
      · have lower : p k ≤ p j := falls.trans (lowered_lt above (positive j order.le)).le
        exact absurd (lower.trans (under j from_ order)) (not_le.mpr higher)
    · exact leg.steady j k from_ order within falls

/-- Behind the end of a leg that goes down, what rises from a row of it rises from its end. -/
theorem not_rises_of_lowest (above : 0 < thr) {j k : Nat} (lowest : p b ≤ p j) (not_ : ¬ Rises p thr b k) :
    ¬ Rises p thr j k := by
  intro rises
  exact not_ ((raised_mono above lowest).trans rises)

theorem not_rises_of_le (above : 0 < thr) {j k : Nat} (positive : 0 < p j) (le : p k ≤ p j) : ¬ Rises p thr j k := by
  intro rises
  exact absurd (rises.trans le) (not_le.mpr (lt_raised above positive))

/-- Where nothing rises up to the end of a leg that goes down, nothing does when it grows. -/
theorem not_rises_of_grow (above : 0 < thr) {j k : Nat} (lowest : ∀ k, a ≤ k → k ≤ b → p b ≤ p k)
    (between : ∀ k, b < k → k < i → p b ≤ p k ∧ ¬ Rises p thr b k) (lower : p i < p b)
    (positive : 0 < p j) (from_ : a ≤ j) (order : j < k) (behind : b < k) (to_ : k ≤ i) : ¬ Rises p thr j k := by
  have over_ : p b ≤ p j := by
    rcases Nat.lt_or_ge b j with later | within
    · exact (between j later (by omega)).1
    · exact lowest j from_ within
  rcases Nat.lt_or_eq_of_le to_ with less | rfl
  · exact not_rises_of_lowest above over_ (between k behind less).2
  · exact not_rises_of_le above positive (lower.le.trans over_)

theorem DownLeg.grow (above : 0 < thr) (leg : DownLeg p thr a b) (later : b < i)
    (between : ∀ k, b < k → k < i → p b ≤ p k ∧ ¬ Rises p thr b k) (lower : p i < p b)
    (positive : ∀ k, k ≤ i → 0 < p k) : DownLeg p thr a i := by
  have moved : p i ≤ lowered thr (p a) := lower.le.trans leg.moved
  refine ⟨leg.spans.trans later, moved, ?_, ?_, ?_⟩
  · intro k from_ to_
    rcases Nat.lt_or_ge b k with behind | within
    · rcases Nat.lt_or_eq_of_le to_ with less | rfl
      · exact lower.le.trans (between k behind less).1
      · exact le_rfl
    · exact lower.le.trans (leg.lowest k from_ within)
  · intro k from_ to_
    have start : 0 < p a := positive a (leg.spans.le.trans later.le)
    rcases Nat.lt_or_ge b k with behind | within
    · rcases Nat.lt_or_eq_of_le to_ with less | rfl
      · have under : p k < raised thr (p b) := not_le.mp (between k behind less).2
        exact (under.trans_le (raised_mono above leg.moved)).le.trans (raised_lowered_lt above start).le
      · exact moved.trans (lowered_lt above start).le
    · exact leg.highest k from_ within
  · intro j k from_ order to_ confirmed
    rcases Nat.lt_or_ge b k with behind | within
    · exact not_rises_of_grow above leg.lowest between lower (positive j (by omega)) from_ order behind to_
    · exact leg.steady j k from_ order within confirmed

theorem DownLeg.turn (above : 0 < thr) (later : b < i)
    (between : ∀ k, b < k → k < i → p k ≤ p b ∧ ¬ Falls p thr b k) (falls : Falls p thr b i)
    (positive : ∀ k, k ≤ i → 0 < p k) : DownLeg p thr b i := by
  have bottom : ∀ k, b ≤ k → k < i → lowered thr (p b) < p k := by
    intro k from_ to_
    rcases Nat.lt_or_eq_of_le from_ with behind | rfl
    · exact not_le.mp (between k behind to_).2
    · exact lowered_lt above (positive b to_.le)
  have lowest : ∀ k, b ≤ k → k ≤ i → p i ≤ p k := by
    intro k from_ to_
    rcases Nat.lt_or_eq_of_le to_ with less | rfl
    · exact falls.trans (bottom k from_ less).le
    · exact le_rfl
  refine ⟨later, falls, lowest, ?_, ?_⟩
  · intro k from_ to_
    rcases Nat.lt_or_eq_of_le to_ with less | rfl
    · rcases Nat.lt_or_eq_of_le from_ with behind | rfl
      · exact (between k behind less).1
      · exact le_rfl
    · exact falls.trans (lowered_lt above (positive b later.le)).le
  · rintro j k from_ order to_ ⟨m, fromM, toM, confirmed⟩
    have last : m = i := by
      by_contra before
      exact absurd confirmed (not_le.mpr (bottom m fromM (by omega)))
    obtain rfl : k = i := by omega
    exact not_rises_of_le above (positive j order.le) (lowest j from_ order.le)

theorem UpLeg.turn (above : 0 < thr) (below : thr < 1) (later : b < i)
    (between : ∀ k, b < k → k < i → p b ≤ p k ∧ ¬ Rises p thr b k) (rises : Rises p thr b i)
    (positive : ∀ k, k ≤ i → 0 < p k) : UpLeg p thr b i := by
  have start : 0 < p b := positive b later.le
  have top : ∀ k, b ≤ k → k < i → p k < raised thr (p b) := by
    intro k from_ to_
    rcases Nat.lt_or_eq_of_le from_ with behind | rfl
    · exact not_le.mp (between k behind to_).2
    · exact lt_raised above start
  have least : ∀ k, b ≤ k → k ≤ i → p b ≤ p k := by
    intro k from_ to_
    rcases Nat.lt_or_eq_of_le to_ with less | rfl
    · rcases Nat.lt_or_eq_of_le from_ with behind | rfl
      · exact (between k behind less).1
      · exact le_rfl
    · exact (lt_raised above start).le.trans rises
  refine ⟨later, rises, ?_, ?_, ?_⟩
  · intro k from_ to_
    rcases Nat.lt_or_eq_of_le to_ with less | rfl
    · exact (top k from_ less).le.trans rises
    · exact le_rfl
  · intro k from_ to_
    exact (lowered_raised_lt above start).trans_le (least k from_ to_)
  · intro j k from_ order to_ falls
    have under : p j ≤ raised thr (p b) := (top j from_ (by omega)).le
    have drop : p k < p b := (falls.trans (lowered_mono below under)).trans_lt (lowered_raised_lt above start)
    exact absurd (least k (by omega) to_) (not_le.mpr drop)

end Legs

/-! ## Lists of legs -/

section Lists

variable {p thr} {n a b : Nat} {d : Dir} {legs : List Leg} {l : Leg}

/-- Rows of which none moved by the threshold from one before. -/
def Quiet (p : Nat → α) (thr : α) (n : Nat) : Prop :=
  ∀ j k, j < k → k < n → ¬ Rises p thr j k ∧ ¬ Falls p thr j k

theorem LegLaw.spans (leg : LegLaw p thr l) : l.start < l.stop := by
  unfold LegLaw at leg
  split at leg
  · exact leg.spans
  · exact leg.spans

theorem swingLaw_nil : SwingLaw p thr n [] ↔ Quiet p thr n := by
  constructor
  · intro law j k order to_
    exact law.quiet j k order to_ (by simp)
  · intro quiet
    exact ⟨by simp, .nil, by simp, by simp, fun j k order to_ _ => quiet j k order to_⟩

theorem SwingLaw.first (quiet : Quiet p thr n) (leg : LegLaw p thr ⟨a, n, d⟩)
    (calm : d = .down → ∀ j k, a ≤ j → j < k → k ≤ n → ¬ Rises p thr j k) :
    SwingLaw p thr (n + 1) [⟨a, n, d⟩] := by
  have spans : a < n := leg.spans
  refine ⟨by simp, .singleton _, by simpa using leg, by simpa using calm, ?_⟩
  intro j k order to_ before
  have start : k ≤ a := by simpa using before
  exact quiet j k order (by omega)

theorem SwingLaw.stay (law : SwingLaw p thr n legs) (some_ : legs ≠ []) : SwingLaw p thr (n + 1) legs := by
  refine ⟨fun l mem => (law.inside l mem).trans (Nat.lt_succ_self n), law.chained, law.each, law.calm, ?_⟩
  intro j k order to_ before
  obtain ⟨l, rest, rfl⟩ := List.exists_cons_of_ne_nil some_
  have start : k ≤ l.start := before l (by simp)
  have spans : l.start < l.stop := (law.each l (by simp)).spans
  exact law.quiet j k order (by have := law.inside l (by simp); omega) before

theorem SwingLaw.grow (law : SwingLaw p thr n (legs ++ [⟨a, b, d⟩])) (leg : LegLaw p thr ⟨a, n, d⟩)
    (calm : d = .down → (∀ j k, a ≤ j → j < k → k ≤ b → ¬ Rises p thr j k) →
      ∀ j k, a ≤ j → j < k → k ≤ n → ¬ Rises p thr j k) :
    SwingLaw p thr (n + 1) (legs ++ [⟨a, n, d⟩]) := by
  have spans : a < n := leg.spans
  refine ⟨?_, ?_, ?_, ?_, ?_⟩
  · intro l mem
    rcases Foundation.mem_concat mem with old | new
    · exact (law.inside l (List.mem_append_left _ old)).trans (Nat.lt_succ_self n)
    · simp [new]
  · have chained := law.chained
    simp only [List.isChain_append, List.IsChain.singleton, List.head?_cons, Option.mem_some_iff, forall_eq'] at chained ⊢
    exact chained
  · intro l mem
    rcases Foundation.mem_concat mem with old | new
    · exact law.each l (List.mem_append_left _ old)
    · exact new ▸ leg
  · cases legs with
    | nil =>
      have before := law.calm ⟨a, b, d⟩ (by simp)
      intro l head down
      obtain rfl : (⟨a, n, d⟩ : Leg) = l := by simpa using head
      exact calm down (before down)
    | cons m rest =>
      intro l head
      exact law.calm l (by simpa using head)
  · intro j k order to_ before
    cases legs with
    | nil =>
      have start : k ≤ a := by simpa using before
      exact law.quiet j k order (by omega) (by simpa using start)
    | cons m rest =>
      have start : k ≤ m.start := by simpa using before
      have spansFirst : m.start < m.stop := (law.each m (by simp)).spans
      exact law.quiet j k order (by have := law.inside m (by simp); omega) (by simpa using start)

theorem SwingLaw.turn (law : SwingLaw p thr n (legs ++ [l])) (leg : LegLaw p thr ⟨l.stop, n, d⟩) (other : d ≠ l.dir) :
    SwingLaw p thr (n + 1) (legs ++ [l] ++ [⟨l.stop, n, d⟩]) := by
  have same : (legs ++ [l] ++ [(⟨l.stop, n, d⟩ : Leg)]).head? = (legs ++ [l]).head? := by
    cases legs <;> rfl
  have kept : SwingLaw p thr (n + 1) (legs ++ [l]) := law.stay (by simp)
  refine ⟨?_, ?_, ?_, ?_, ?_⟩
  · intro m mem
    rcases Foundation.mem_concat mem with old | new
    · exact kept.inside m old
    · simp [new]
  · refine kept.chained.append (List.isChain_singleton _) ?_
    simpa using other
  · intro m mem
    rcases Foundation.mem_concat mem with old | new
    · exact kept.each m old
    · exact new ▸ leg
  · rw [same]
    exact kept.calm
  · rw [same]
    exact kept.quiet

end Lists

/-! ## The scan -/

/-- What the scan keeps tells of the rows before row `i` that belong to no leg yet. -/
def Scan.Pending (p : Nat → α) (thr : α) (i : Nat) (s : Scan) : Prop :=
  match s.d with
  | none => s.legs = [] ∧ s.lo < i ∧ s.hi < i ∧ ∀ k < i, p s.lo ≤ p k ∧ p k ≤ p s.hi
  | some .up => ∀ k, s.ext < k → k < i → p k ≤ p s.ext ∧ ¬ Falls p thr s.ext k
  | some .down => ∀ k, s.ext < k → k < i → p s.ext ≤ p k ∧ ¬ Rises p thr s.ext k

/-- What holds before row `i` is looked at. -/
structure Scan.Ok (p : Nat → α) (thr : α) (i : Nat) (s : Scan) : Prop where
  law : SwingLaw p thr i s.told
  pending : s.Pending p thr i

section Run

variable {p thr} [IsStrictOrderedRing α] {i : Nat} {s : Scan}

theorem forall_between {P : Nat → Prop} {e : Nat} (before : ∀ k, e < k → k < i → P k) (now : P i) :
    ∀ k, e < k → k < i + 1 → P k := by
  intro k from_ to_
  rcases Nat.lt_succ_iff_lt_or_eq.mp to_ with less | rfl
  · exact before k from_ less
  · exact now

theorem Scan.Ok.step_none (above : 0 < thr) (below : thr < 1) (none_ : s.d = none) (ok : s.Ok p thr i)
    (positive : ∀ k, k ≤ i → 0 < p k) : (s.step p thr i).Ok p thr (i + 1) := by
  obtain ⟨legs, d, piv, ext, lo, hi⟩ := s
  obtain rfl : d = none := none_
  obtain ⟨law, rfl, loInside, hiInside, extremes⟩ := ok
  have quiet : Quiet p thr i := swingLaw_nil.mp law
  obtain ⟨lo', lo_⟩ : ∃ lo', lo' = if p i < p lo then i else lo := ⟨_, rfl⟩
  obtain ⟨hi', hi_⟩ : ∃ hi', hi' = if p i > p hi then i else hi := ⟨_, rfl⟩
  have extremes' : ∀ k < i + 1, p lo' ≤ p k ∧ p k ≤ p hi' := by
    intro k to_
    rcases Nat.lt_succ_iff_lt_or_eq.mp to_ with less | rfl
    · have := extremes k less
      grind
    · grind
  have inside : lo' < i + 1 ∧ hi' < i + 1 := by grind
  simp only [Scan.step, ← lo_, ← hi_]
  split_ifs with rises falls
  · have before : lo' < i := by
      rcases Nat.lt_succ_iff_lt_or_eq.mp inside.1 with less | rfl
      · exact less
      · exact absurd rises (not_le.mpr (lt_raised above (positive _ le_rfl)))
    have leg : UpLeg p thr lo' i := UpLeg.turn above below before
      (fun k from_ to_ => ⟨(extremes' k (by omega)).1, (quiet lo' k from_ to_).1⟩) rises positive
    exact ⟨SwingLaw.first quiet leg (by simp), by intro k; simp only; omega⟩
  · have before : hi' < i := by
      rcases Nat.lt_succ_iff_lt_or_eq.mp inside.2 with less | rfl
      · exact less
      · exact absurd falls (not_le.mpr (lowered_lt above (positive _ le_rfl)))
    have leg : DownLeg p thr hi' i := DownLeg.turn above before
      (fun k from_ to_ => ⟨(extremes' k (by omega)).2, (quiet hi' k from_ to_).2⟩) falls positive
    refine ⟨SwingLaw.first quiet leg ?_, by intro k; simp only; omega⟩
    intro _ j k from_ order to_
    rcases Nat.lt_or_eq_of_le to_ with less | rfl
    · exact (quiet j k order less).1
    · exact not_rises_of_le above (positive j order.le) (leg.lowest j from_ order.le)
  · refine ⟨swingLaw_nil.mpr ?_, rfl, inside.1, inside.2, extremes'⟩
    intro j k order to_
    rcases Nat.lt_succ_iff_lt_or_eq.mp to_ with less | rfl
    · exact quiet j k order less
    · refine ⟨not_rises_of_lowest above (extremes' j (by omega)).1 rises, ?_⟩
      intro fallen
      exact falls (fallen.trans (lowered_mono below (extremes' j (by omega)).2))

theorem Scan.Ok.step_up (above : 0 < thr) (below : thr < 1) (up : s.d = some .up) (ok : s.Ok p thr i)
    (positive : ∀ k, k ≤ i → 0 < p k) : (s.step p thr i).Ok p thr (i + 1) := by
  obtain ⟨legs, d, piv, ext, lo, hi⟩ := s
  obtain rfl : d = some .up := up
  obtain ⟨law, between⟩ := ok
  have last : UpLeg p thr piv ext := law.each ⟨piv, ext, .up⟩ (by simp [Scan.told])
  have later : ext < i := law.inside ⟨piv, ext, .up⟩ (by simp [Scan.told])
  simp only [Scan.step]
  split_ifs with higher falls
  · have leg : UpLeg p thr piv i := last.grow above below later between higher positive
    exact ⟨SwingLaw.grow law leg (by simp), by intro k; simp only; omega⟩
  · have leg : DownLeg p thr ext i := DownLeg.turn above later between falls positive
    exact ⟨SwingLaw.turn law leg (by simp), by intro k; simp only; omega⟩
  · exact ⟨law.stay (by simp [Scan.told]), forall_between between ⟨not_lt.mp higher, falls⟩⟩

theorem Scan.Ok.step_down (above : 0 < thr) (below : thr < 1) (down : s.d = some .down) (ok : s.Ok p thr i)
    (positive : ∀ k, k ≤ i → 0 < p k) : (s.step p thr i).Ok p thr (i + 1) := by
  obtain ⟨legs, d, piv, ext, lo, hi⟩ := s
  obtain rfl : d = some .down := down
  obtain ⟨law, between⟩ := ok
  have last : DownLeg p thr piv ext := law.each ⟨piv, ext, .down⟩ (by simp [Scan.told])
  have later : ext < i := law.inside ⟨piv, ext, .down⟩ (by simp [Scan.told])
  simp only [Scan.step]
  split_ifs with lower rises
  · have leg : DownLeg p thr piv i := last.grow above later between lower positive
    refine ⟨SwingLaw.grow law leg ?_, by intro k; simp only; omega⟩
    intro _ calm j k from_ order to_
    rcases Nat.lt_or_ge ext k with behind | within
    · exact not_rises_of_grow above last.lowest between lower (positive j (by omega)) from_ order behind to_
    · exact calm j k from_ order within
  · have leg : UpLeg p thr ext i := UpLeg.turn above below later between rises positive
    exact ⟨SwingLaw.turn law leg (by simp), by intro k; simp only; omega⟩
  · exact ⟨law.stay (by simp [Scan.told]), forall_between between ⟨not_lt.mp lower, rises⟩⟩

theorem Scan.Ok.step (above : 0 < thr) (below : thr < 1) (ok : s.Ok p thr i) (positive : ∀ k, k ≤ i → 0 < p k) :
    (s.step p thr i).Ok p thr (i + 1) := by
  match way : s.d with
  | none => exact ok.step_none above below way positive
  | some .up => exact ok.step_up above below way positive
  | some .down => exact ok.step_down above below way positive

omit [IsStrictOrderedRing α] in
theorem scan_ok_first : Scan.Ok p thr 1 {} := by
  refine ⟨swingLaw_nil.mpr ?_, rfl, by simp, by simp, ?_⟩
  · intro j k order to_
    omega
  · intro k to_
    obtain rfl : k = 0 := by omega
    exact ⟨le_rfl, le_rfl⟩

theorem scan_ok (above : 0 < thr) (below : thr < 1) (m : Nat) (positive : ∀ k, k < 1 + m → 0 < p k) :
    ((List.range' 1 m).foldl (Scan.step p thr) {}).Ok p thr (1 + m) := by
  induction m with
  | zero => exact scan_ok_first
  | succ m ih =>
    rw [List.range'_1_concat, List.foldl_append]
    have ok := ih fun k to_ => positive k (by omega)
    exact ok.step above below fun k to_ => positive k (Nat.lt_succ_of_le to_)

end Run

/-! ## The legs of a stretch -/

section Law

variable [IsStrictOrderedRing α]

theorem swingLegs_law (p : List α) (thr : α) (above : 0 < thr) (below : thr < 1) (positive : ∀ x ∈ p, 0 < x) :
    SwingLaw (p.getD · 0) thr p.length (swingLegs p thr) := by
  unfold swingLegs
  split_ifs with short
  · refine swingLaw_nil.mpr ?_
    intro j k order to_
    omega
  · have length : 1 + (p.length - 1) = p.length := by omega
    have ok := scan_ok (p := (p.getD · 0)) above below (p.length - 1) fun k to_ => by
      have room : k < p.length := by omega
      simpa [room] using positive p[k] (List.getElem_mem room)
    rw [length] at ok
    exact ok.law

/-- Prices that go below where a leg up started, and back by a tenth in the leg down before it is confirmed. -/
def unsteady : List ℚ := [200, 220, 199, 240, 218, 240, 200]

end Law

end FreeSwarm.TaskKit
