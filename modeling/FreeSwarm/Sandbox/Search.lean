import FreeSwarm.Console.Deciles

/-!
# Searching a family of strategies

A family gives positions for each set of parameters. A search tries the same sets on any data, and chooses one of
them at the start of each calendar period, from what all of them earned in the sessions before it.
-/

namespace FreeSwarm.Sandbox

open FreeSwarm.Console (starts)

abbrev Name : Type := List Char

variable (V : Type)

/-- The numbers of numpy, as far as a search reckons with them. -/
structure Floats where
  /-- `0.0`. -/
  zero : V
  truthy : V → Bool
  nanToNum : V → V
  /-- `p' / p - 1.0`. -/
  change : V → V → V
  sub : V → V → V
  mul : V → V → V
  abs : V → V
  /-- `np.add.reduceat`, over one stretch. -/
  sum : List V → V
  /-- `astype("float32")`. -/
  float32 : V → V

/-! ## The sets of parameters -/

inductive Value where
  | int (n : Int)
  | float (x : V)
  | text (name : Name)
deriving DecidableEq

/-- What the space says of a parameter. -/
inductive Choice where
  | ints (lo hi : Int)
  | floats (lo hi : V)
  | oneOf (values : List (Value V))

/-- A set of parameters. -/
abbrev Point : Type := List (Name × Value V)

/-- What the random numbers of a seed are used for. -/
structure Rng where
  /-- `strata`, for a seed, a number of trials and the place of a parameter. -/
  strata : Nat → Nat → Nat → List V
  /-- `min(int(u * len(values)), len(values) - 1)`. -/
  place : V → Nat → Nat
  /-- `int(span[0] + round(u * (span[1] - span[0])))`. -/
  intBetween : V → Int → Int → Int
  /-- `round(float(span[0] + u * (span[1] - span[0])), 4)`. -/
  floatBetween : V → V → V → V

/-- Why a search ends without a result. -/
inductive SearchError (E : Type) where
  /-- `trials must be between 2 and 64`. -/
  | trials
  /-- `the rows are EMPTY`. -/
  | noRows
  /-- `space is empty`. -/
  | noSpace
  /-- `parameter has no values`. -/
  | noValues (name : Name)
  | index
  | family (e : Option E)
deriving DecidableEq

variable {V E Row : Type}

def product : List (Name × List (Value V)) → List (Point V)
  | [] => [[]]
  | (name, values) :: rest => values.flatMap fun value => (product rest).map fun point => (name, value) :: point

def Choice.list : Choice V → Option (List (Value V))
  | .oneOf values => some values
  | _ => none

def Choice.draw [Inhabited (Value V)] (rng : Rng V) (u : V) : Choice V → Value V
  | .ints lo hi => .int (rng.intBetween u lo hi)
  | .floats lo hi => .float (rng.floatBetween u lo hi)
  | .oneOf values => values.getD (rng.place u values.length) default

instance : Inhabited (Value V) := ⟨.int 0⟩

/-- The points of a Latin hypercube, each once. -/
def hypercube [DecidableEq V] (num : Floats V) (rng : Rng V) (space : List (Name × Choice V)) (trials seed : Nat) :
    List (Point V) :=
  ((List.range trials).map fun i => space.zipIdx.map fun (parameter, place) =>
    (parameter.1, parameter.2.draw rng ((rng.strata seed trials place).getD i num.zero))).eraseDups

/-- `_search_points`: every combination if they are few, else a Latin hypercube. -/
def searchPoints [DecidableEq V] (num : Floats V) (rng : Rng V) (space : List (Name × Choice V))
    (trials seed : Nat) : Except (SearchError E) (List (Point V)) :=
  if space = [] then .error .noSpace
  else match space.find? fun parameter => parameter.2.list.any List.isEmpty with
    | some (name, _) => .error (.noValues name)
    | none =>
      match space.mapM fun parameter => parameter.2.list.map fun values => (parameter.1, values) with
      | some lists =>
        if (product lists).length ≤ trials then .ok (product lists)
        else .ok (hypercube num rng space trials seed)
      | none => .ok (hypercube num rng space trials seed)

/-! ## Positions -/

/-- What a family returns: positions, and the moments of their bars where these are known. -/
inductive Positions (V : Type) where
  | plain (values : List V)
  | stamped (pairs : List (Int × V))

def Positions.values : Positions V → List V
  | .plain values => values
  | .stamped pairs => pairs.map Prod.snd

/-- What a search runs on. -/
structure Env (V Row : Type) where
  num : Floats V
  rng : Rng V
  /-- `_times`: the moment of a row, in nanoseconds. -/
  time : Row → Int
  /-- `_col(rows, price)`. -/
  price : Row → V
  /-- `clock`: the local date of a moment. -/
  session : Int → Int
  /-- `astype("datetime64[M]")`: the month of a date. -/
  month : Int → Int
  /-- `_pick_trial`: the trial to trade next, if any. -/
  pickTrial : List (List V) → Option Nat

variable (env : Env V Row)

/-- `align`: the latest value whose stamp is at or before a moment, or nothing. -/
def align (pairs : List (Int × V)) (t : Int) : V :=
  let known := (pairs.filter fun pair => pair.1 ≤ t).mergeSort fun pair pair' => pair.1 ≤ pair'.1
  (known.getLast?.map Prod.snd).getD env.num.zero

/-- `_positions_on_rows`: one position per row, if there is one or their moments are known. -/
def positionsOnRows (afterStamp : Bool) (positions : Positions V) (rows : List Row) :
    Except (Option E) (List V) :=
  let values := positions.values.map env.num.nanToNum
  if values.length = rows.length ∨ rows.length = 0 then
    if values.length = rows.length then .ok values else .error none
  else match positions with
    | .plain _ => .error none
    | .stamped pairs =>
      let shift := if afterStamp then 1 else 0
      let moved := pairs.map fun pair => (pair.1 + shift, env.num.nanToNum pair.2)
      .ok (rows.map fun row => align env moved (env.time row))

/-- A strategy family: what it returns for some rows and a set of parameters, unless it raises. -/
abbrev Family (V E Row : Type) : Type := List Row → Point V → Except E (Positions V)

def trial (family : Family V E Row) (rows : List Row) (point : Point V) : Except (Option E) (List V) :=
  match family rows point with
  | .error e => .error (some e)
  | .ok positions => positionsOnRows env true positions rows

def trialPositions (family : Family V E Row) (rows : List Row) (point : Point V) : List V :=
  match trial env family rows point with
  | .error _ => List.replicate rows.length env.num.zero
  | .ok positions => positions

/-! ## Sessions -/

variable (rows : List Row)

/-- `starts`: the first row of each session. -/
def begins : List Nat := starts (rows.map fun row => env.session (env.time row))

/-- `ends`: the row after the last one of each session. -/
def ends : List Nat := (begins env rows).tail ++ [rows.length]

def sessionOf (i : Nat) : Nat :=
  (((begins env rows).filter fun start => start ≤ i).getLast?).getD 0

/-- `held`: the position that is held over a row, some rows after it was taken and never over the end of a
session. -/
def held (pos : List V) (delay i : Nat) : V :=
  if i - sessionOf env rows i < delay ∨ i + 1 ∈ ends env rows then env.num.zero
  else pos.getD (i - delay) env.num.zero

/-- `r`: what the price does to the next row of the session. -/
def priceChange (i : Nat) : V :=
  if i + 1 ∈ ends env rows then env.num.nanToNum env.num.zero
  else match rows[i]?, rows[i + 1]? with
    | some row, some next => env.num.nanToNum (env.num.change (env.price row) (env.price next))
    | _, _ => env.num.zero

/-- The net return of a row: what the position earned, less what it cost to change it. -/
def netReturn (pos : List V) (cost : V) (delay i : Nat) : V :=
  let before := if i = 0 then env.num.zero else held env rows pos delay (i - 1)
  let turn := env.num.abs (env.num.sub (held env rows pos delay i) before)
  env.num.sub (env.num.mul (held env rows pos delay i) (priceChange env rows i)) (env.num.mul cost turn)

/-- `_session_pnl`: the net return of each session. -/
def sessionPnl (pos : List V) (cost : V) (delay : Nat) : List V :=
  (List.range (begins env rows).length).map fun d =>
    let start := (begins env rows).getD d 0
    env.num.sum ((List.range' start ((ends env rows).getD d 0 - start)).map
      (netReturn env rows pos cost delay))

/-! ## The search -/

inductive Refit where
  | month
  | quarter
  | half
  | year

/-- `_REFITS`: how many months a period has. -/
def Refit.months : Refit → Int
  | .month => 1
  | .quarter => 3
  | .half => 6
  | .year => 12

/-- What a caller asks for. -/
structure Request (V : Type) where
  space : List (Name × Choice V)
  trials : Nat
  refit : Refit
  warmupDays : Int
  lookbackDays : Option Int
  seed : Nat
  /-- `cost_bps`, as a part of one. -/
  cost : V
  delay : Int

variable (q : Request V)

variable (family : Family V E Row) (points : List (Point V)) (rows : List Row)

/-- `days`: the date of each session. -/
def days : List Int :=
  (begins env rows).map fun start => (rows[start]?.map fun row => env.session (env.time row)).getD 0

/-- `period`: the first session of each calendar period. -/
def periods : List Nat :=
  starts ((days env rows).map fun day => env.month day / q.refit.months)

/-- `warmup`: sessions that stay flat. -/
def Request.warmup : Nat := (max q.warmupDays 10).toNat

/-- `lo`: the first session that a choice at a session looks at. -/
def Request.lookback (s : Nat) : Nat :=
  match q.lookbackDays with
  | none => 0
  | some days => if days = 0 then 0 else (max 0 ((s : Int) - days)).toNat

/-- `pnl[:, lo:s]`: what each trial earned in the sessions before one. -/
def block (s : Nat) : List (List V) :=
  points.map fun point =>
    ((sessionPnl env rows (trialPositions env family rows point) q.cost q.delay.toNat).take s).drop
      (q.lookback s)

/-- What is traded in a period: from which session to which, and the trial, if any. -/
structure Pick where
  /-- `s`. -/
  first : Nat
  stop : Nat
  /-- `choice["trial"]`. -/
  trial : Option Nat
deriving DecidableEq

/-- What is traded in a period. The period that the warm-up ends in trades from then on. -/
def pickOf (j : Nat) : Option Pick :=
  let s := (periods env q rows).getD j 0
  let next := (periods env q rows)[j + 1]?
  let first := max s q.warmup
  if s < q.warmup ∧ next.any (fun next => next ≤ q.warmup) then none
  else if s < q.warmup ∧ (days env rows).length ≤ q.warmup then none
  else some
    { first := first
      stop := next.getD (days env rows).length
      trial := env.pickTrial (block env q family points rows first) }

def Pick.write (i : Nat) (value : V)
    (pick : Pick) : V :=
  match pick.trial with
  | none => value
  | some chosen =>
    if (begins env rows).getD pick.first 0 ≤ i ∧ i < (ends env rows).getD (pick.stop - 1) 0 then
      env.num.float32 ((trialPositions env family rows (points.getD chosen [])).getD i env.num.zero)
    else value

def writePeriod (i : Nat) (value : V)
    (j : Nat) : V :=
  ((pickOf env q family points rows j).map fun pick => pick.write env family points rows i value).getD value

def positionAt (i : Nat) : V :=
  (List.range (periods env q rows).length).foldl (writePeriod env q family points rows i) env.num.zero

/-- What a search found, as far as it trades. -/
structure Found (V : Type) where
  positions : List V
  picks : List Pick

/-- What the first failed trial raised. -/
def firstError (points : List (Point V)) (rows : List Row) : Option (Option E) :=
  points.findSome? fun point =>
    match trial env family rows point with
    | .error e => some e
    | .ok _ => none

/-- `pnl.any()`. -/
def earns : Bool :=
  points.any fun point =>
    (sessionPnl env rows (trialPositions env family rows point) q.cost q.delay.toNat).any env.num.truthy

def search [DecidableEq V] (family : Family V E Row) (rows : List Row) : Except (SearchError E) (Found V) :=
  if ¬(2 ≤ q.trials ∧ q.trials ≤ 64) then .error .trials
  else if rows.length = 0 then .error .noRows
  else match searchPoints env.num env.rng q.space q.trials q.seed with
    | .error e => .error e
    | .ok points =>
      -- the shifted positions and the mask of the first rows have different lengths
      if q.delay < 0 ∨ (rows.length : Int) < q.delay then .error .index
      else match firstError env family points rows, earns env q family points rows with
        | some e, false => .error (.family e)
        | _, _ => .ok
          { positions := (List.range rows.length).map (positionAt env q family points rows)
            picks := (List.range (periods env q rows).length).filterMap (pickOf env q family points rows) }

end FreeSwarm.Sandbox
