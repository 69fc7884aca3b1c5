import Mathlib.Data.List.TakeWhile

/-!
# The decile study of a signal

A study drops the rows that it may not see and makes bars of the others. Each bar is sorted into a bucket by
the deciles of the signal in the sessions before it, or in the bars before it, and has the return of the
price to a bar after it. Times are in microseconds.
-/

namespace FreeSwarm.Console

variable (V : Type)

/-- The numbers of numpy and polars, as far as a study reckons with them. -/
structure Numbers where
  nan : V
  isNan : V → Bool
  isFinite : V → Bool
  above : V → V → Bool
  positive : V → Bool
  nonPositive : V → Bool
  /-- `(p' / p - 1.0) * 1e4`. -/
  change : V → V → V
  /-- `np.quantile(pool, QS)`. -/
  quantiles : List V → List V
  /-- `rolling_quantile` of one window, for each of `QS`. -/
  rollingQuantiles : List V → List V

/-- A row that a caller passes: its time, unless it is `NaT`, the signal, the price and the condition. -/
structure Sample where
  t : Option Int
  x : V
  price : V
  /-- `condition`, where one is passed. -/
  condition : V

/-- A row that a study keeps. -/
structure Tick where
  t : Int
  x : V
  p : V
deriving DecidableEq

structure Bar where
  /-- `t`: the time of the last row in the bar. -/
  t : Int
  /-- `x`: the last signal in the bar that is known. -/
  x : V
  /-- `p`: the last price in the bar that is known. -/
  p : V
  /-- `day`: the session of the bar. -/
  day : Int
deriving DecidableEq

/-- What a caller asks for. -/
structure Settings where
  cut : Option Int
  conditioned : Bool
  /-- `rule`: how long a bar is. -/
  every : Nat
  windowDays : Nat
  windowBars : Option Nat

variable {V : Type} (num : Numbers V)

/-! ## Bars -/

variable (s : Settings) (bars : List (Bar V)) (rows : List (Tick V)) (every : Nat)

/-- `dt.truncate`: the start of the stretch of a length that a time lies in. -/
def truncate (t : Int) : Int := t - t % every

def dayLength : Nat := 86400000000

def dayOf (t : Int) : Int := truncate dayLength t

def known (values : List V) : V :=
  (values.filter fun value => !num.isNan value).getLast?.getD num.nan

def barOf : Bar V :=
  let t := (rows.getLast?.map Tick.t).getD 0
  { t := t, x := known num (rows.map Tick.x), p := known num (rows.map Tick.p), day := dayOf t }

def inBin (rows : List (Tick V)) (start : Int) : List (Tick V) :=
  rows.filter fun row => truncate every row.t = start

/-- The stretches that hold rows, each once and in the order of its first row. -/
def bins (rows : List (Tick V)) : List Int :=
  (rows.map fun row => truncate every row.t).eraseDups

def byTime : List (Tick V) := rows.mergeSort fun row row' => row.t ≤ row'.t

def resampleLast (rows : List (Tick V)) : List (Bar V) :=
  let frame := byTime rows
  ((bins every frame).mergeSort fun start start' => start ≤ start').map fun start =>
    barOf num (inBin every frame start)

/-! ## Edges -/

/-- The edges of a bar that is not bucketed. -/
def nanRow : List V := List.replicate 9 num.nan

def minObs : Nat := 50

def barEdges (window : Nat) (xs : List V) (i : Nat) : List V :=
  let values := (xs.drop (i - window)).take window
  if window ≤ i ∧ values.all (fun value => !num.isNan value) then num.rollingQuantiles values else nanRow num

/-- `starts`: where sessions begin. -/
def starts (days : List Int) : List Nat :=
  (List.range days.length).filter fun i => i = 0 ∨ days[i]? ≠ days[i - 1]?

/-- The deciles of the values that are finite, if they are enough. -/
def poolEdges (pool : List V) : List V :=
  let finite := pool.filter num.isFinite
  if finite.length < minObs then nanRow num else num.quantiles finite

/-- The edges from the sessions before the one of a bar, which is the last that begins up to the bar. -/
def sessionEdges (windowDays : Nat) (bars : List (Bar V)) (i : Nat) : List V :=
  let starts := starts (bars.map Bar.day)
  let k := (starts.filter fun start => start ≤ i).length - 1
  let start := starts.getD k 0
  let from_ := starts.getD (k - windowDays) 0
  if windowDays ≤ k then
    poolEdges num (((bars.map Bar.x).drop from_).take (start - from_))
  else
    nanRow num

/-- `rolling_edges`: a window of no bars is none. -/
def rollingEdges : List (List V) :=
  let windowBars := s.windowBars.getD 0
  (List.range bars.length).map fun i =>
    if windowBars = 0 then sessionEdges num s.windowDays bars i
    else barEdges num windowBars (bars.map Bar.x) i

/-- The bucket of a value: the edges that it is above, or `-1` where it is not known. -/
def decileOf (x : V) (edges : List V) : Int :=
  if num.isFinite x ∧ edges.all num.isFinite then ((edges.countP fun edge => num.above x edge : Nat) : Int) else -1

def assignDeciles (xs : List V) (edges : List (List V)) : List Int :=
  List.zipWith (decileOf num) xs edges

/-! ## Returns -/

/-- The return from one bar to another, where it is a number. -/
def changeTo (bar end_ : Bar V) : V :=
  let r := num.change bar.p end_.p
  if !num.isFinite r || num.nonPositive bar.p then num.nan else r

def closeIndex (i : Nat) (day : Int) : Nat :=
  i + ((bars.drop (i + 1)).takeWhile fun bar => bar.day = day).length

def closeReturn (partialLastSession : Bool) (i : Nat) (bar : Bar V) : V :=
  let close := closeIndex bars i bar.day
  if close = i ∨ partialLastSession ∧ bars.getLast?.any (fun last => last.day = bar.day) then num.nan
  else match bars[close]? with
    | none => num.nan
    | some end_ => changeTo num bar end_

def barsReturn (h i : Nat) (bar : Bar V) : V :=
  match bars[i + h]? with
  | none => num.nan
  | some end_ => if end_.day = bar.day then changeTo num bar end_ else num.nan

/-- `forward_returns_bps`: a horizon of no bars is the close of the session, `CLOSE`. -/
def forwardReturnsBps (h : Nat) (partialLastSession : Bool) : List V :=
  bars.mapIdx fun i bar =>
    if h = 0 then closeReturn num bars partialLastSession i bar else barsReturn num bars h i bar

/-! ## Studies -/

/-- What a study makes of the rows, of which it takes its statistics. -/
structure Study (V : Type) where
  bars : List (Bar V)
  edges : List (List V)
  /-- `dec`. -/
  deciles : List Int
  /-- `ret`, for each horizon. -/
  returns : Nat → List V

def studyTimeframe (partialLastSession : Bool) : Study V :=
  let bars := resampleLast num s.every rows
  let edges := rollingEdges num s bars
  { bars := bars
    edges := edges
    deciles := assignDeciles num (bars.map Bar.x) edges
    returns := fun h => forwardReturnsBps num bars h partialLastSession }

def Settings.signal (row : Sample V) : V :=
  if s.conditioned ∧ ¬(num.isFinite row.condition ∧ num.positive row.condition) then num.nan else row.x

/-- `keep`: the rows that have a time before the cut. -/
def Settings.kept (rows : List (Sample V)) : List (Tick V) :=
  rows.filterMap fun row => row.t.bind fun t =>
    if s.cut.all (fun cut => t < cut) then some { t := t, x := s.signal num row, p := row.price } else none

/-- `partial`: the cut fell inside the last session. -/
def Settings.partialSession : Bool :=
  s.cut.any fun cut =>
    cut ≠ dayOf cut && (rows.map Tick.t).max?.any fun last => dayOf last = dayOf cut

/-- `study`, for one timeframe. -/
def study (rows : List (Sample V)) : Study V :=
  let kept := s.kept num rows
  studyTimeframe num s (byTime kept) (s.partialSession kept)

end FreeSwarm.Console
