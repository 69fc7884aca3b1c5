import FreeSwarm.Sandbox.NoiseArea

/-!
# Exits of trends

`trend_exits` opens trades on signals and ends them at a stop that follows the price, at the volume-weighted price or
at a time of the day. A row without a price is passed over, also after the time from which all should be flat.
-/

namespace FreeSwarm.Sandbox

open FreeSwarm.Foundation

variable {S : Type} [DecidableEq S]

structure TrendRow (S : Type) extends Traded where
  session : S
  second : Fin 86400
  /-- `entries`, where there is one for each row. -/
  entry : NpFloat
  /-- `size`, where there is one for each row. -/
  size : NpFloat

def TrendRow.minute (r : TrendRow S) : ℚ := (r.second.val : ℚ) / 60

/-- How `trend_exits` is called. Times are in minutes. -/
structure TrendSettings where
  /-- `entries`, where there is one for all rows. -/
  entries : Option NpFloat
  /-- `size`, where there is one for all rows. -/
  size : Option NpFloat
  stopMult : ℚ
  volWindow : Nat
  enough : 10 ≤ volWindow
  stopPct : Option ℚ
  trail : Bool
  breakevenAt : Option ℚ
  vwapExit : Bool
  flatAt : Option ℚ
  noEntryBefore : Option ℚ
  noEntryAfter : Option ℚ
  maxTradesPerDay : Option Nat
  reverse : Bool
  retrigger : Bool
  /-- The deviation of the returns between the prices of a window, as far as they are enough, times the root of
  `vol_window`. -/
  move : List NpFloat → NpFloat

variable (cfg : TrendSettings)

def TrendSettings.tFlat : ℚ := cfg.flatAt.getD (24 * 60)

def TrendSettings.tOpen : ℚ := cfg.noEntryBefore.getD 0

def TrendSettings.tLast : ℚ := cfg.noEntryAfter.getD cfg.tFlat

/-- `np.sign`, where no number stays none. -/
def signOf : NpFloat → NpFloat
  | .nan => .nan
  | x => .fin x.sign

/-- `x == y`. -/
def sameFloat (x y : NpFloat) : Bool := decide (x = y) && decide (x ≠ .nan)

/-- What the loop reads of a row. -/
structure TrendTick where
  newDay : Bool
  /-- `p`. -/
  price : NpFloat
  /-- `e`. -/
  sig : NpFloat
  minute : ℚ
  /-- `sz`, or 1 where it is no size. -/
  size : ℚ
  move : NpFloat
  /-- `vwap`, which is looked at with `vwap_exit`. -/
  vwap : NpFloat

variable (rows : List (TrendRow S)) (t : TrendTick) (s : TrendState) (i : Nat) (x : ℚ) (r : TrendRow S)

def newDay : Nat → Bool
  | 0 => true
  | i + 1 => decide (rows[i]?.map TrendRow.session ≠ rows[i + 1]?.map TrendRow.session)

/-- `e`. -/
def sigOf : NpFloat :=
  match cfg.entries with
  | some x => signOf x
  | none => .fin (sgn (r.entry.nanToNum 0))

/-- `sz[i] if np.isfinite(sz[i]) and sz[i] > 0 else 1.0`. -/
def tradeSize : ℚ :=
  match cfg.size with
  | some (.fin x) => if 0 < |x| then |x| else 1
  | some _ => 1
  | none => if 0 < |r.size.nanToNum 1| then |r.size.nanToNum 1| else 1

def returnWindow : List NpFloat :=
  ((rows.take (i + 1)).drop (i - cfg.volWindow)).map fun r => r.price

def sessionSoFar : List Traded :=
  match (numbered TrendRow.session rows)[i]? with
  | none => []
  | some (d, _) => (blockOf ((numbered TrendRow.session rows).take (i + 1)) d).map TrendRow.toTraded

def tickAt : TrendTick :=
  { newDay := newDay rows i, price := r.price, sig := sigOf cfg r, minute := r.minute, size := tradeSize cfg r,
    move := cfg.move (returnWindow cfg rows i), vwap := vwapOf (sessionSoFar rows i) }

/-! ## The loop -/

/-- What is carried from row to row. -/
structure TrendState where
  pos : NpFloat
  entry : ℚ
  best : ℚ
  dist : ℚ
  stop : ℚ
  trades : Nat
  prevSig : NpFloat
  armed : NpFloat

/-- Before the first row. -/
def TrendState.start : TrendState :=
  { pos := .fin 0, entry := 0, best := 0, dist := 0, stop := 0, trades := 0, prevSig := .fin 0, armed := .fin 0 }

/-- A session begins. -/
def TrendState.fresh : TrendState :=
  { s with trades := 0, pos := .fin 0, prevSig := .fin 0, armed := .fin 0 }

def carried : TrendState := if t.newDay then s.fresh else s

/-- A signal arms an entry. -/
def armedBy : TrendState :=
  { s with armed := if cfg.retrigger || !sameFloat t.sig s.prevSig then t.sig else s.armed, prevSig := t.sig }

def TrendState.long : Bool := (NpFloat.fin 0).lt s.pos

/-- `s`. -/
def TrendState.side : ℚ := if s.long then 1 else -1

/-- The best price so far. -/
def bested (s : TrendState) : TrendState := if 0 < (x - s.best) * s.side then { s with best := x } else s

/-- The stop follows the best price. -/
def trailed : TrendState :=
  if cfg.trail then
    { s with stop := if s.long then max s.stop (s.best - s.dist) else min s.stop (s.best + s.dist) }
  else s

/-- The stop moves to the entry. -/
def secured : TrendState :=
  match cfg.breakevenAt with
  | none => s
  | some at_ =>
    if at_ * s.dist ≤ (s.best - s.entry) * s.side then
      { s with stop := if s.long then max s.stop s.entry else min s.stop s.entry }
    else s

/-- `hit`. -/
def hits (s : TrendState) : Bool :=
  (if s.long then decide (x ≤ s.stop) else decide (s.stop ≤ x)) ||
    (cfg.vwapExit && t.vwap.isFinite &&
      (if s.long then (NpFloat.fin x).lt t.vwap else t.vwap.lt (.fin x)))

/-- A trade that is on moves its stop, and ends where it is hit. -/
def managed (s : TrendState) : TrendState :=
  if s.pos = .fin 0 then s
  else
    let s := secured cfg (trailed cfg (bested x s))
    if hits cfg t x s then { s with pos := .fin 0 } else s

/-- A signal for the trade that is on is used up. -/
def settledIn : TrendState :=
  if s.armed ≠ .fin 0 ∧ s.pos ≠ .fin 0 ∧ sameFloat (signOf s.pos) s.armed = true then { s with armed := .fin 0 } else s

def canOpen : Bool :=
  decide (s.armed ≠ .fin 0) && decide (cfg.tOpen ≤ t.minute) && decide (t.minute < cfg.tLast) &&
    match cfg.maxTradesPerDay with
    | none => true
    | some most => decide (most = 0) || decide (s.trades < most)

/-- `d`, where it is a number. -/
def stopDistance : Option ℚ :=
  if cfg.stopPct.getD 0 ≠ 0 then some (cfg.stopPct.getD 0 / 100 * x)
  else
    match t.move with
    | .fin move => some (move * cfg.stopMult * x)
    | _ => none

/-- The distance of the stop, if a trade opens. -/
def opening (s : TrendState) : Option ℚ :=
  if canOpen cfg t s && (decide (s.pos = .fin 0) || cfg.reverse) then
    (stopDistance cfg t x).filter fun d => 0 < d
  else none

def openedWith (x d : ℚ) (s : TrendState) : TrendState :=
  { s with
    pos := s.armed.mul (.fin t.size)
    entry := x
    best := x
    dist := d
    stop := if (NpFloat.fin 0).lt s.armed then x - d else x + d
    trades := s.trades + 1
    armed := .fin 0 }

/-- What is carried on from a row, and that a trade opens there. -/
def trendStep : TrendState × Bool :=
  let s := armedBy cfg t (carried t s)
  match t.price with
  | .fin x =>
    if cfg.tFlat ≤ t.minute then ({ s with pos := .fin 0 }, false)
    else
      let s := settledIn (managed cfg t x s)
      match opening cfg t x s with
      | none => (s, false)
      | some d => (openedWith t x d s, true)
  | _ => (s, false)

def stateAt (rows : List (TrendRow S)) : Nat → TrendState
  | 0 => TrendState.start
  | i + 1 =>
    match rows[i]? with
    | none => stateAt rows i
    | some r => (trendStep cfg (tickAt cfg rows i r) (stateAt rows i)).1

def opensAt : Bool :=
  rows[i]?.any fun r => (trendStep cfg (tickAt cfg rows i r) (stateAt cfg rows i)).2

def carriedAt : TrendState :=
  if newDay rows i then (stateAt cfg rows i).fresh else stateAt cfg rows i

def trendExits : List NpFloat :=
  (List.range rows.length).map fun i => (stateAt cfg rows (i + 1)).pos

/-! ## One row -/

/-- A stop moves, if at all, to where the price has gone. -/
structure Moved (s s' : TrendState) : Prop where
  pos : s'.pos = s.pos
  armed : s'.armed = s.armed
  trades : s'.trades = s.trades
  prevSig : s'.prevSig = s.prevSig
  stop : if s.long then s.stop ≤ s'.stop else s'.stop ≤ s.stop

section Step

variable {cfg} {t : TrendTick} {s s' s'' : TrendState} {x d : ℚ}

theorem Moved.long (h : Moved s s') : s'.long = s.long := by rw [TrendState.long, TrendState.long, h.pos]

theorem Moved.refl (s : TrendState) : Moved s s :=
  { pos := rfl, armed := rfl, trades := rfl, prevSig := rfl, stop := by split <;> exact le_refl _ }

theorem Moved.trans (h : Moved s s') (h' : Moved s' s'') : Moved s s'' where
  pos := h'.pos.trans h.pos
  armed := h'.armed.trans h.armed
  trades := h'.trades.trans h.trades
  prevSig := h'.prevSig.trans h.prevSig
  stop := by
    have first := h.stop
    have second := h'.stop
    rw [h.long] at second
    split at first
    · next long =>
      rw [if_pos long] at second ⊢
      exact first.trans second
    · next short =>
      rw [if_neg short] at second ⊢
      exact second.trans first

theorem bested_moved : Moved s (bested x s) := by
  unfold bested
  split
  · exact { pos := rfl, armed := rfl, trades := rfl, prevSig := rfl, stop := by split <;> exact le_refl _ }
  · exact Moved.refl s

theorem drawn_moved (up down : ℚ) :
    Moved s { s with stop := if s.long then max s.stop up else min s.stop down } where
  pos := rfl
  armed := rfl
  trades := rfl
  prevSig := rfl
  stop := by
    cases long : s.long with
    | true => exact le_max_left _ _
    | false => exact min_le_left _ _

theorem trailed_moved : Moved s (trailed cfg s) := by
  unfold trailed
  split
  · exact drawn_moved _ _
  · exact Moved.refl s

theorem secured_moved : Moved s (secured cfg s) := by
  unfold secured
  split
  · exact Moved.refl s
  · split
    · exact drawn_moved _ _
    · exact Moved.refl s

theorem managed_cases (cfg : TrendSettings) (t : TrendTick) (x : ℚ) (on : s.pos ≠ .fin 0) : ∃ s', Moved s s' ∧
    (hits cfg t x s' = true ∧ managed cfg t x s = { s' with pos := .fin 0 } ∨
      hits cfg t x s' = false ∧ managed cfg t x s = s') := by
  refine ⟨secured cfg (trailed cfg (bested x s)), (bested_moved.trans trailed_moved).trans secured_moved, ?_⟩
  rw [managed, if_neg on]
  cases hit : hits cfg t x (secured cfg (trailed cfg (bested x s))) with
  | true => exact .inl ⟨rfl, by simp [hit]⟩
  | false => exact .inr ⟨rfl, by simp [hit]⟩

theorem managed_kept : (managed cfg t x s).armed = s.armed ∧ (managed cfg t x s).trades = s.trades ∧
    (managed cfg t x s).prevSig = s.prevSig := by
  by_cases off : s.pos = .fin 0
  · rw [managed, if_pos off]
    exact ⟨rfl, rfl, rfl⟩
  · obtain ⟨s', moved, ⟨-, is_⟩ | ⟨-, is_⟩⟩ := managed_cases cfg t x off
    · rw [is_]
      exact ⟨moved.armed, moved.trades, moved.prevSig⟩
    · rw [is_]
      exact ⟨moved.armed, moved.trades, moved.prevSig⟩

theorem settledIn_kept : (settledIn s).pos = s.pos ∧ (settledIn s).trades = s.trades ∧
    (settledIn s).prevSig = s.prevSig ∧ (settledIn s).stop = s.stop ∧
      (s.armed = .fin 0 → (settledIn s).armed = .fin 0) := by
  unfold settledIn
  split
  · exact ⟨rfl, rfl, rfl, rfl, fun _ => rfl⟩
  · exact ⟨rfl, rfl, rfl, rfl, id⟩

theorem opening_some (opens : opening cfg t x s = some d) : s.armed ≠ .fin 0 ∧ cfg.tOpen ≤ t.minute ∧
    t.minute < cfg.tLast ∧ ∀ most, cfg.maxTradesPerDay = some most → most ≠ 0 → s.trades < most := by
  unfold opening at opens
  split at opens
  · next may =>
    rw [Bool.and_eq_true, canOpen, Bool.and_eq_true, Bool.and_eq_true, Bool.and_eq_true] at may
    obtain ⟨⟨⟨⟨armed, from_⟩, before⟩, room⟩, -⟩ := may
    refine ⟨of_decide_eq_true armed, of_decide_eq_true from_, of_decide_eq_true before, fun most is_ some_ => ?_⟩
    rw [is_] at room
    simpa [some_] using room
  · exact absurd opens (by simp)

end Step

/-! ## All rows -/

section Run

variable {cfg} {rows : List (TrendRow S)} {r : TrendRow S} {i : Nat}

def awakeAt (cfg : TrendSettings) (rows : List (TrendRow S)) (i : Nat) (r : TrendRow S) : TrendState :=
  armedBy cfg (tickAt cfg rows i r) (carriedAt cfg rows i)

def lookedAfter (cfg : TrendSettings) (rows : List (TrendRow S)) (i : Nat) (r : TrendRow S) (x : ℚ) : TrendState :=
  settledIn (managed cfg (tickAt cfg rows i r) x (awakeAt cfg rows i r))

/-- What a row can do: without a price nothing, at the end of the day all is flat, and else the trade that is on is
looked after and one may open. -/
theorem row_cases (cfg : TrendSettings) (there : rows[i]? = some r) :
    (r.price.isFinite = false ∧ opensAt cfg rows i = false ∧ stateAt cfg rows (i + 1) = awakeAt cfg rows i r) ∨
    ∃ x, r.price = .fin x ∧
      ((cfg.tFlat ≤ r.minute ∧ opensAt cfg rows i = false ∧
          stateAt cfg rows (i + 1) = { awakeAt cfg rows i r with pos := .fin 0 }) ∨
        r.minute < cfg.tFlat ∧
          ((opensAt cfg rows i = false ∧ stateAt cfg rows (i + 1) = lookedAfter cfg rows i r x) ∨
          ∃ d, opening cfg (tickAt cfg rows i r) x (lookedAfter cfg rows i r x) = some d ∧
            opensAt cfg rows i = true ∧
              stateAt cfg rows (i + 1) = openedWith (tickAt cfg rows i r) x d (lookedAfter cfg rows i r x))) := by
  have state : stateAt cfg rows (i + 1) = (trendStep cfg (tickAt cfg rows i r) (stateAt cfg rows i)).1 := by
    rw [stateAt, there]
  have opens : opensAt cfg rows i = (trendStep cfg (tickAt cfg rows i r) (stateAt cfg rows i)).2 := by
    rw [opensAt, there, Option.any_some]
  have tick : (tickAt cfg rows i r).price = r.price := rfl
  have clock : (tickAt cfg rows i r).minute = r.minute := rfl
  have awake : armedBy cfg (tickAt cfg rows i r) (carried (tickAt cfg rows i r) (stateAt cfg rows i)) =
      awakeAt cfg rows i r := rfl
  rw [state, opens]
  unfold trendStep
  rw [tick, clock, awake]
  cases price : r.price with
  | nan => exact .inl ⟨rfl, rfl, rfl⟩
  | inf above => exact .inl ⟨rfl, rfl, rfl⟩
  | fin x =>
    refine .inr ⟨x, rfl, ?_⟩
    dsimp only
    rw [← lookedAfter]
    by_cases late : cfg.tFlat ≤ r.minute
    · rw [if_pos late]
      exact .inl ⟨late, rfl, rfl⟩
    · rw [if_neg late]
      cases opening cfg (tickAt cfg rows i r) x (lookedAfter cfg rows i r x) with
      | none => exact .inr ⟨not_le.mp late, .inl ⟨rfl, rfl⟩⟩
      | some d => exact .inr ⟨not_le.mp late, .inr ⟨d, rfl, rfl, rfl⟩⟩

theorem lookedAfter_kept (cfg : TrendSettings) (rows : List (TrendRow S)) (i : Nat) (r : TrendRow S) (x : ℚ) :
    (lookedAfter cfg rows i r x).trades = (carriedAt cfg rows i).trades ∧
    (lookedAfter cfg rows i r x).prevSig = (awakeAt cfg rows i r).prevSig ∧
    ((awakeAt cfg rows i r).armed = .fin 0 → (lookedAfter cfg rows i r x).armed = .fin 0) :=
  ⟨settledIn_kept.2.1.trans managed_kept.2.1, settledIn_kept.2.2.1.trans managed_kept.2.2,
    fun none_ => settledIn_kept.2.2.2.2 (managed_kept.1.trans none_)⟩

theorem there_of_opens (opens : opensAt cfg rows i = true) : ∃ r, rows[i]? = some r := by
  cases there : rows[i]? with
  | none => exact absurd opens (by simp [opensAt, there])
  | some r => exact ⟨r, rfl⟩

theorem trendExits_getElem? (inside : i < rows.length) :
    (trendExits cfg rows)[i]? = some (stateAt cfg rows (i + 1)).pos := by
  rw [trendExits, List.getElem?_map, List.getElem?_range inside, Option.map_some]

/-! ### What comes later -/

theorem newDay_take {k : Nat} (before : i < k) : newDay (rows.take k) i = newDay rows i := by
  cases i with
  | zero => rfl
  | succ i => rw [newDay, newDay, List.getElem?_take_of_lt (Nat.lt_of_succ_lt before), List.getElem?_take_of_lt before]

theorem tickAt_take {k : Nat} (before : i < k) : tickAt cfg (rows.take k) i r = tickAt cfg rows i r := by
  have window : returnWindow cfg (rows.take k) i = returnWindow cfg rows i := by
    rw [returnWindow, returnWindow, List.take_take, Nat.min_eq_left before]
  have soFar : sessionSoFar (rows.take k) i = sessionSoFar rows i := by
    rw [sessionSoFar, sessionSoFar, numbered_take, List.getElem?_take_of_lt before, List.take_take,
      Nat.min_eq_left before]
  rw [tickAt, tickAt, newDay_take before, window, soFar]

theorem stateAt_take {k : Nat} (upTo : i ≤ k) : stateAt cfg (rows.take k) i = stateAt cfg rows i := by
  induction i with
  | zero => rfl
  | succ i ih =>
    rw [stateAt, stateAt, List.getElem?_take_of_lt upTo, ih (Nat.le_of_succ_le upTo)]
    cases rows[i]? with
    | none => rfl
    | some r => simp only [tickAt_take (Nat.lt_of_succ_le upTo)]

/-! ### Stops -/

def GoesOn (cfg : TrendSettings) (rows : List (TrendRow S)) (i : Nat) : Prop :=
  (carriedAt cfg rows i).pos ≠ .fin 0 ∧ opensAt cfg rows i = false ∧ (stateAt cfg rows (i + 1)).pos ≠ .fin 0

theorem goesOn (there : rows[i]? = some r) (on : GoesOn cfg rows i) :
    (stateAt cfg rows (i + 1)).pos = (carriedAt cfg rows i).pos ∧
      (if (carriedAt cfg rows i).long then (carriedAt cfg rows i).stop ≤ (stateAt cfg rows (i + 1)).stop
        else (stateAt cfg rows (i + 1)).stop ≤ (carriedAt cfg rows i).stop) ∧
      ∀ x, r.price = .fin x →
        if (carriedAt cfg rows i).long then (stateAt cfg rows (i + 1)).stop < x
        else x < (stateAt cfg rows (i + 1)).stop := by
  obtain ⟨before, none_, after⟩ := on
  obtain ⟨missing, -, state⟩ | ⟨x, price, ⟨-, -, state⟩ | ⟨-, ⟨-, state⟩ | ⟨d, -, opens, -⟩⟩⟩ :=
    row_cases cfg there
  · rw [state]
    refine ⟨rfl, by split <;> exact le_refl _, fun x price => ?_⟩
    rw [price] at missing
    exact absurd missing.symm Bool.false_ne_true
  · rw [state] at after
    exact absurd rfl after
  · rw [state, lookedAfter] at after ⊢
    rw [settledIn_kept.1] at after ⊢
    rw [settledIn_kept.2.2.2.1]
    obtain ⟨s', moved, ⟨-, is_⟩ | ⟨no, is_⟩⟩ :=
      managed_cases cfg (tickAt cfg rows i r) x (s := awakeAt cfg rows i r) before
    · rw [is_] at after
      exact absurd rfl after
    · rw [is_]
      refine ⟨moved.pos, moved.stop, fun y price' => ?_⟩
      have same : x = y := NpFloat.fin.inj (price.symm.trans price')
      subst same
      have long : s'.long = (carriedAt cfg rows i).long := moved.long
      rw [hits, Bool.or_eq_false_iff, long] at no
      cases is_long : (carriedAt cfg rows i).long with
      | true => simpa [is_long] using no.1
      | false => simpa [is_long] using no.1
  · rw [none_] at opens
    exact absurd opens Bool.false_ne_true

/-! ### The end of the day -/

theorem pos_of_late (there : rows[i]? = some r) (late : cfg.tFlat ≤ r.minute) :
    (stateAt cfg rows (i + 1)).pos = if r.price.isFinite then .fin 0 else (carriedAt cfg rows i).pos := by
  obtain ⟨missing, -, state⟩ | ⟨x, price, ⟨-, -, state⟩ | ⟨early, -⟩⟩ := row_cases cfg there
  · rw [state, missing]
    rfl
  · rw [state, price]
    rfl
  · exact absurd late (not_le.mpr early)

/-! ### Openings -/

theorem opens_facts (there : rows[i]? = some r) (opens : opensAt cfg rows i = true) :
    cfg.tOpen ≤ r.minute ∧ r.minute < cfg.tLast ∧
      (∀ most, cfg.maxTradesPerDay = some most → most ≠ 0 → (carriedAt cfg rows i).trades < most) ∧
      (awakeAt cfg rows i r).armed ≠ .fin 0 ∧ (stateAt cfg rows (i + 1)).armed = .fin 0 := by
  obtain ⟨-, none_, -⟩ | ⟨x, -, ⟨-, none_, -⟩ | ⟨-, ⟨none_, -⟩ | ⟨d, open_, -, state⟩⟩⟩ := row_cases cfg there
  · exact absurd (none_.symm.trans opens) Bool.false_ne_true
  · exact absurd (none_.symm.trans opens) Bool.false_ne_true
  · exact absurd (none_.symm.trans opens) Bool.false_ne_true
  · obtain ⟨armed, from_, before, room⟩ := opening_some open_
    rw [state]
    obtain ⟨trades, -, used⟩ := lookedAfter_kept cfg rows i r x
    rw [trades] at room
    exact ⟨from_, before, room, fun none_ => armed (used none_), rfl⟩

theorem counted (there : rows[i]? = some r) :
    (stateAt cfg rows (i + 1)).trades =
        (carriedAt cfg rows i).trades + (if opensAt cfg rows i = true then 1 else 0) ∧
      (stateAt cfg rows (i + 1)).prevSig = sigOf cfg r ∧
      ((awakeAt cfg rows i r).armed = .fin 0 → (stateAt cfg rows (i + 1)).armed = .fin 0) := by
  obtain ⟨-, opens, state⟩ | ⟨x, -, ⟨-, opens, state⟩ | ⟨-, ⟨opens, state⟩ | ⟨d, -, opens, state⟩⟩⟩ :=
    row_cases cfg there
  · rw [state, opens]
    exact ⟨rfl, rfl, id⟩
  · rw [state, opens]
    exact ⟨rfl, rfl, id⟩
  · rw [state, opens]
    exact lookedAfter_kept cfg rows i r x
  · rw [state, opens]
    exact ⟨congrArg (· + 1) (lookedAfter_kept cfg rows i r x).1, (lookedAfter_kept cfg rows i r x).2.1, fun _ => rfl⟩

def OneSession (rows : List (TrendRow S)) (i n : Nat) : Prop :=
  ∀ k, i < k → k < i + n → newDay rows k = false

theorem countP_opens {n : Nat} (inside : i + n + 1 ≤ rows.length) (one : OneSession rows i (n + 1)) :
    (List.range (n + 1)).countP (fun k => opensAt cfg rows (i + k)) ≤ (stateAt cfg rows (i + (n + 1))).trades := by
  have step : ∀ {m : Nat}, i + m < rows.length →
      (List.range m).countP (fun k => opensAt cfg rows (i + k)) ≤ (carriedAt cfg rows (i + m)).trades →
        (List.range (m + 1)).countP (fun k => opensAt cfg rows (i + k)) ≤ (stateAt cfg rows (i + (m + 1))).trades := by
    intro m inside le
    rw [List.range_succ, List.countP_append, List.countP_singleton, ← Nat.add_assoc,
      (counted (List.getElem?_eq_getElem inside)).1]
    exact Nat.add_le_add_right le _
  induction n with
  | zero => exact step inside (Nat.zero_le _)
  | succ n ih =>
    have same : newDay rows (i + (n + 1)) = false := one _ (by omega) (by omega)
    refine step inside ?_
    rw [carriedAt, same]
    exact ih (by omega) fun k after before => one k after (by omega)

theorem trades_le {most : Nat} (is_ : cfg.maxTradesPerDay = some most) (some_ : most ≠ 0) (i : Nat) :
    (stateAt cfg rows i).trades ≤ most := by
  induction i with
  | zero => exact Nat.zero_le _
  | succ i ih =>
    cases there : rows[i]? with
    | none =>
      rw [stateAt, there]
      exact ih
    | some r =>
      have le : (carriedAt cfg rows i).trades ≤ most := by
        unfold carriedAt
        split
        · exact Nat.zero_le _
        · exact ih
      rw [(counted there).1]
      split
      · next opens => exact (opens_facts there opens).2.2.1 most is_ some_
      · exact le

/-! ### Signals -/

def Changes (cfg : TrendSettings) (rows : List (TrendRow S)) (k : Nat) : Prop :=
  ∃ r r', rows[k - 1]? = some r ∧ rows[k]? = some r' ∧ sameFloat (sigOf cfg r') (sigOf cfg r) = false

theorem awakeAt_armed (once : cfg.retrigger = false) (inside : i + 1 < rows.length)
    (same : newDay rows (i + 1) = false) (stays : ¬Changes cfg rows (i + 1)) :
    (awakeAt cfg rows (i + 1) rows[i + 1]).armed = (stateAt cfg rows (i + 1)).armed := by
  have there : rows[i + 1]? = some rows[i + 1] := List.getElem?_eq_getElem inside
  have there' : rows[i]? = some rows[i] := List.getElem?_eq_getElem (by omega)
  have still : sameFloat (sigOf cfg rows[i + 1]) (sigOf cfg rows[i]) = true := by
    by_contra differ
    rw [Bool.not_eq_true] at differ
    exact stays ⟨_, _, there', there, differ⟩
  have prev : (stateAt cfg rows (i + 1)).prevSig = sigOf cfg rows[i] := (counted there').2.1
  have sig : (tickAt cfg rows (i + 1) rows[i + 1]).sig = sigOf cfg rows[i + 1] := rfl
  rw [awakeAt, armedBy, carriedAt, same, once]
  simp only [Bool.false_eq_true, if_false, prev, sig, still, Bool.not_true, Bool.or_false]

theorem armed_of_opens {n : Nat} (once : cfg.retrigger = false) (opens : opensAt cfg rows i = true)
    (inside : i + n < rows.length) (one : OneSession rows i (n + 1))
    (stays : ∀ k, i < k → k ≤ i + n → ¬Changes cfg rows k) : (stateAt cfg rows (i + n + 1)).armed = .fin 0 := by
  induction n with
  | zero => exact (opens_facts (List.getElem?_eq_getElem inside) opens).2.2.2.2
  | succ n ih =>
    have armed := ih (by omega) (fun k after before => one k after (by omega))
      fun k after upTo => stays k after (by omega)
    have awake := awakeAt_armed once inside (one (i + n + 1) (by omega) (by omega))
      (stays (i + n + 1) (by omega) (by omega))
    exact (counted (List.getElem?_eq_getElem inside)).2.2 (awake.trans armed)

theorem changes_of_opens {n : Nat} (once : cfg.retrigger = false) (opens : opensAt cfg rows i = true)
    (again : opensAt cfg rows (i + (n + 1)) = true) (one : OneSession rows i (n + 2)) :
    ∃ k, i < k ∧ k ≤ i + (n + 1) ∧ Changes cfg rows k := by
  by_contra none_
  have stays : ∀ k, i < k → k ≤ i + (n + 1) → ¬Changes cfg rows k :=
    fun k after upTo changes => none_ ⟨k, after, upTo, changes⟩
  obtain ⟨r, there⟩ := there_of_opens again
  obtain ⟨inside, is_⟩ := List.getElem?_eq_some_iff.mp there
  have armed : (stateAt cfg rows (i + n + 1)).armed = .fin 0 :=
    armed_of_opens once opens (by omega) (fun k after before => one k after (by omega))
      fun k after upTo => stays k after (by omega)
  have awake := awakeAt_armed once inside (one (i + n + 1) (by omega) (by omega))
    (stays (i + n + 1) (by omega) (by omega))
  exact (opens_facts (List.getElem?_eq_getElem inside) again).2.2.2.1 (awake.trans armed)

end Run

/-! ## Rules -/

structure Obeys (rows : List (TrendRow S)) : Prop where
  causal : ∀ i k : Nat, i < k → k ≤ rows.length →
    (trendExits cfg (rows.take k))[i]? = (trendExits cfg rows)[i]?
  traded : ∀ i : Nat, (stateAt cfg rows (i + 1)).pos ≠ .fin 0 → i < rows.length →
    opensAt cfg rows i = true ∨ GoesOn cfg rows i
  stop : ∀ (i : Nat) (r : TrendRow S), rows[i]? = some r → GoesOn cfg rows i →
    (stateAt cfg rows (i + 1)).pos = (carriedAt cfg rows i).pos ∧
      (if (carriedAt cfg rows i).long then (carriedAt cfg rows i).stop ≤ (stateAt cfg rows (i + 1)).stop
        else (stateAt cfg rows (i + 1)).stop ≤ (carriedAt cfg rows i).stop) ∧
      ∀ x, r.price = .fin x →
        if (carriedAt cfg rows i).long then (stateAt cfg rows (i + 1)).stop < x
        else x < (stateAt cfg rows (i + 1)).stop
  flat : ∀ (i : Nat) (r : TrendRow S), rows[i]? = some r → cfg.tFlat ≤ r.minute →
    (trendExits cfg rows)[i]? = some (.fin 0)
  window : ∀ (i : Nat) (r : TrendRow S), rows[i]? = some r → opensAt cfg rows i = true →
    cfg.tOpen ≤ r.minute ∧ r.minute < cfg.tLast
  few : ∀ most, cfg.maxTradesPerDay = some most → ∀ i n : Nat, i + n ≤ rows.length → OneSession rows i n →
    (List.range n).countP (fun k => opensAt cfg rows (i + k)) ≤ most
  once : cfg.retrigger = false → ∀ i n : Nat, opensAt cfg rows i = true →
    opensAt cfg rows (i + (n + 1)) = true → OneSession rows i (n + 2) →
      ∃ k, i < k ∧ k ≤ i + (n + 1) ∧ Changes cfg rows k

def PricedLate (rows : List (TrendRow S)) : Prop :=
  ∀ (i : Nat) (r : TrendRow S), rows[i]? = some r → cfg.tFlat ≤ r.minute → r.price.isFinite = false →
    (carriedAt cfg rows i).pos = .fin 0

variable {cfg} in
theorem goesOn_of_pos {rows : List (TrendRow S)} {i : Nat} (pos : (stateAt cfg rows (i + 1)).pos ≠ .fin 0)
    (inside : i < rows.length) : opensAt cfg rows i = true ∨ GoesOn cfg rows i := by
  cases opens : opensAt cfg rows i with
  | true => exact .inl rfl
  | false =>
    refine .inr ⟨fun none_ => pos ?_, opens, pos⟩
    obtain ⟨-, -, state⟩ | ⟨x, -, ⟨-, -, state⟩ | ⟨-, ⟨-, state⟩ | ⟨d, -, opens', -⟩⟩⟩ :=
      row_cases cfg (List.getElem?_eq_getElem inside)
    · rw [state]
      exact none_
    · rw [state]
    · have off : (awakeAt cfg rows i rows[i]).pos = .fin 0 := none_
      rw [state, lookedAfter, settledIn_kept.1, managed, if_pos off, off]
    · exact absurd (opens.symm.trans opens') Bool.false_ne_true

/-- The rules are obeyed exactly if no trade is on at a row without a price at the end of the day, unless no trade is to
open at all. -/
theorem obeys_iff (rows : List (TrendRow S)) (some_ : cfg.maxTradesPerDay ≠ some 0) :
    Obeys cfg rows ↔ PricedLate cfg rows := by
  constructor
  · intro obeys i r there late missing
    have flat := obeys.flat i r there late
    rw [trendExits_getElem? (List.getElem?_eq_some_iff.mp there).1, pos_of_late there late, missing] at flat
    exact Option.some.inj flat
  · intro priced
    refine { causal := ?_, traded := fun i => goesOn_of_pos, stop := fun i r => goesOn, flat := ?_, window := ?_,
             few := ?_, once := fun once i n opens again one => changes_of_opens once opens again one }
    · intro i k before inside
      have short : i < (rows.take k).length := by rw [List.length_take]; omega
      rw [trendExits_getElem? short, trendExits_getElem? (by omega), stateAt_take before]
    · intro i r there late
      rw [trendExits_getElem? (List.getElem?_eq_some_iff.mp there).1, pos_of_late there late]
      cases missing : r.price.isFinite with
      | true => rfl
      | false => exact congrArg some (priced i r there late missing)
    · exact fun i r there opens => ⟨(opens_facts there opens).1, (opens_facts there opens).2.1⟩
    · intro most is_ i n inside one
      have limit : most ≠ 0 := fun none_ => some_ (none_ ▸ is_)
      cases n with
      | zero => exact Nat.zero_le _
      | succ n => exact (countP_opens inside one).trans (trades_le is_ limit _)

/-- A row of one session at a time of the day. -/
def tradedAt (hour minute : Nat) (price entry : NpFloat) : TrendRow Nat :=
  { session := 0, second := ⟨(hour * 3600 + minute * 60) % 86400, Nat.mod_lt _ (by decide)⟩, price := price,
    volume := .fin 1, entry := entry, size := .nan }

/-- A stop at one percent, and all as it is by default else. -/
def onePercent : TrendSettings :=
  { entries := none, size := some (.fin 1), stopMult := 3 / 2, volWindow := 360, enough := by decide, stopPct := some 1,
    trail := true, breakevenAt := some 1, vwapExit := false, flatAt := some 955, noEntryBefore := some 585,
    noEntryAfter := some 900, maxTradesPerDay := none, reverse := true, retrigger := false, move := fun _ => .nan }

/-- A trade that is stopped out is not opened again, and the day ends flat. -/
theorem obeys_iff_stopped :
    Obeys onePercent [tradedAt 10 0 (.fin 100) (.fin 1), tradedAt 10 1 (.fin 98) (.fin 1),
      tradedAt 10 2 (.fin 99) (.fin 1), tradedAt 15 55 .nan (.fin 1)] := by
  refine (obeys_iff onePercent _ (by decide)).mpr ?_
  intro i r there late missing
  cases i with
  | zero => exact absurd late (by cases Option.some.inj there; with_unfolding_all decide)
  | succ i =>
    cases i with
    | zero => exact absurd late (by cases Option.some.inj there; with_unfolding_all decide)
    | succ i =>
      cases i with
      | zero => exact absurd late (by cases Option.some.inj there; with_unfolding_all decide)
      | succ i =>
        cases i with
        | zero => with_unfolding_all decide
        | succ i => exact absurd there (by simp)

/-- A trade stays on after the time from which all is to be flat, where a row has no price. -/
theorem obeys_iff_not_flat :
    ¬∀ (cfg : TrendSettings) (rows : List (TrendRow Nat)), Obeys cfg rows := by
  intro all
  have flat := (all onePercent [tradedAt 10 0 (.fin 100) (.fin 1), tradedAt 15 55 .nan (.fin 1)]).flat 1
    (tradedAt 15 55 .nan (.fin 1)) rfl (by with_unfolding_all decide)
  exact absurd flat (by with_unfolding_all decide)

/-- A limit of no trades is none. -/
example : opensAt { onePercent with maxTradesPerDay := some 0 } [tradedAt 10 0 (.fin 100) (.fin 1)] 0 = true := by
  with_unfolding_all decide

end FreeSwarm.Sandbox
