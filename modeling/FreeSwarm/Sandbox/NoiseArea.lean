import FreeSwarm.Foundation.Blocks
import FreeSwarm.Foundation.NpFloat

/-!
# Breakouts from the noise area

`noise_area_breakout` trades breakouts from the range of the moves of earlier sessions. A position is known at its row:
it changes sides at checks only, and is flat from a time of the day on.
-/

namespace FreeSwarm.Sandbox

open FreeSwarm.Foundation

variable {S : Type}

/-! ## Volume-weighted prices -/

/-- The price and the volume of a row. -/
structure Traded where
  /-- `p`. -/
  price : NpFloat
  /-- `v`, which is 1 where there is no such column. -/
  volume : NpFloat

/-- The price that counts, which is zero where it is missing. -/
def Traded.known (x : Traded) : ℚ :=
  match x.price with
  | .fin p => p
  | _ => 0

/-- The volume that counts. -/
def Traded.weight (x : Traded) : ℚ :=
  match x.price, x.volume with
  | .fin _, .fin v => if 0 < v then v else 0
  | _, _ => 0

/-- `session_vwap` after the rows of a session up to one. -/
def vwapOf (rows : List Traded) : NpFloat :=
  let v := (rows.map Traded.weight).sum
  if 0 < v then .fin ((rows.map fun x => x.known * x.weight).sum / v)
  else (NpFloat.fin (rows.map Traded.known).sum).div (.fin (rows.countP fun x => x.price.isFinite))

/-! ## Bands -/

structure BreakoutRow (S : Type) extends Traded where
  session : S
  second : Fin 86400
  /-- `size`, where there is one for each row. -/
  size : NpFloat
  /-- `gate`, which is true where there is none. -/
  gate : Bool

def BreakoutRow.minute (r : BreakoutRow S) : ℚ := (r.second.val : ℚ) / 60

def BreakoutRow.mins (r : BreakoutRow S) : Nat := r.second.val / 60

/-- How `noise_area_breakout` is called. -/
structure BreakoutSettings where
  lookbackDays : Nat
  bandMult : NpFloat
  checkEvery : Int
  /-- `first_check`, in minutes. -/
  firstCheck : ℚ
  /-- `flat_at`, in minutes. -/
  flatAt : ℚ
  /-- `size`, where there is one for all rows. -/
  size : Option NpFloat

variable (cfg : BreakoutSettings)

/-- A frame whose rows know the numbers of their sessions: `day_of`. -/
abbrev Frame (S : Type) := List (Nat × BreakoutRow S)

variable (fs : Frame S) (d m : Nat)

/-- `open_`: the first price of a session. -/
def openOf (d : Nat) : NpFloat := ((blockOf fs d).head?.map fun r => r.price).getD .nan

/-- `prev_close`: the last price of the session before. -/
def prevClose (d : Nat) : NpFloat :=
  if d = 0 then .nan else ((blockOf fs (d - 1)).getLast?.map fun r => r.price).getD .nan

/-- `grid`: how far the last row of a minute is from the open. -/
def gridAt : NpFloat :=
  match ((blockOf fs d).filter fun r => r.mins = m).getLast? with
  | none => .nan
  | some r => ((r.price.div (openOf fs d)).sub (.fin 1)).abs

/-- `grid` after `ffill`. -/
def filledGrid (fs : Frame S) (d : Nat) : Nat → NpFloat
  | 0 => gridAt fs d 0
  | m + 1 => if gridAt fs d (m + 1) = .nan then filledGrid fs d m else gridAt fs d (m + 1)

def meanOf (window : List NpFloat) : NpFloat :=
  if window.all NpFloat.isFinite = true ∧ window ≠ [] then (NpFloat.sum window).div (.fin window.length) else .nan

/-- `sigma`: the mean move at a minute in the sessions before one, times `band_mult`. -/
def sigma : NpFloat :=
  let sigDays :=
    if d < cfg.lookbackDays then .nan
    else meanOf ((List.range cfg.lookbackDays).map fun j => filledGrid fs (d - cfg.lookbackDays + j) m)
  sigDays.mul cfg.bandMult

/-- `ub`. -/
def upperBand : NpFloat :=
  let ref := if (prevClose fs d).isFinite then (openOf fs d).maximum (prevClose fs d) else openOf fs d
  ref.mul ((NpFloat.fin 1).add (sigma cfg fs d m))

/-- `lb`. -/
def lowerBand : NpFloat :=
  let ref := if (prevClose fs d).isFinite then (openOf fs d).minimum (prevClose fs d) else openOf fs d
  ref.mul ((NpFloat.fin 1).sub (sigma cfg fs d m))

/-! ## Positions -/

section Positions

/-- A row is in the session of the row before it. -/
def sameDay (fs : Frame S) (i : Nat) : Bool := decide (fs[i]?.map Prod.fst = fs[i + 1]?.map Prod.fst)

/-- `vwap`. -/
def vwapAt (fs : Frame S) (i d : Nat) : NpFloat :=
  vwapOf ((blockOf (fs.take (i + 1)) d).map BreakoutRow.toTraded)

variable [DecidableEq S]

def framed (rows : List (BreakoutRow S)) : Frame S := numbered BreakoutRow.session rows

variable (fs : Frame S)

/-- `new_min`. -/
def newMinute : Nat → Bool
  | 0 => true
  | i + 1 =>
    decide (fs[i]?.map (fun p => (p.2.mins, p.2.session)) ≠ fs[i + 1]?.map fun p => (p.2.mins, p.2.session))

/-- `check`. A remainder by zero is zero. -/
def isCheck (i : Nat) : Bool :=
  fs[i]?.any fun p =>
    newMinute fs i && decide (cfg.firstCheck ≤ p.2.minute) &&
      (decide (cfg.checkEvery = 0) ||
        decide (((p.2.mins : Int) - intOf cfg.firstCheck) % cfg.checkEvery = 0)) &&
      decide (p.2.minute < cfg.flatAt)

/-- `sz`. -/
def sizeOf (r : BreakoutRow S) : NpFloat :=
  match cfg.size with
  | some x => x.abs
  | none => .fin |r.size.nanToNum 1|

/-- `want`. -/
def wanted (i : Nat) : NpFloat :=
  match fs[i]? with
  | none => .nan
  | some (d, r) =>
    if isCheck cfg fs i && (sigma cfg fs d r.mins).isFinite && r.price.isFinite then
      if r.price.lt (lowerBand cfg fs d r.mins) && r.price.lt (vwapAt fs i d) && r.gate then (sizeOf cfg r).neg
      else if (upperBand cfg fs d r.mins).lt r.price && (vwapAt fs i d).lt r.price && r.gate then sizeOf cfg r
      else .fin 0
    else .nan

/-- `ffill`, in a session. -/
def filledWant (fs : Frame S) : Nat → NpFloat
  | 0 => wanted cfg fs 0
  | i + 1 =>
    if wanted cfg fs (i + 1) ≠ .nan then wanted cfg fs (i + 1)
    else if sameDay fs i then filledWant fs i else .nan

/-- `fillna(0.0)`. -/
def sided (i : Nat) : NpFloat :=
  match filledWant cfg fs i with
  | .nan => .fin 0
  | x => x

def firstOfRun (fs : Frame S) : Nat → NpFloat
  | 0 => sided cfg fs 0
  | i + 1 =>
    if (sided cfg fs (i + 1)).sign ≠ (sided cfg fs i).sign ∨ sameDay fs i = false then sided cfg fs (i + 1)
    else firstOfRun fs i

/-- The position of a row. -/
def breakoutAt (i : Nat) : NpFloat :=
  if fs[i]?.any fun p => decide (cfg.flatAt ≤ p.2.minute) then .fin 0 else firstOfRun cfg fs i

def noiseAreaBreakout (rows : List (BreakoutRow S)) : List NpFloat :=
  (List.range rows.length).map (breakoutAt cfg (framed rows))

end Positions

/-! ## What bands are made of -/

section Bands

variable {cfg} {fs fs' : Frame S} {d m : Nat}

theorem gridAt_congr (same : blockOf fs d = blockOf fs' d) : gridAt fs d m = gridAt fs' d m := by
  rw [gridAt, gridAt, openOf, openOf, same]

theorem filledGrid_congr (same : blockOf fs d = blockOf fs' d) : filledGrid fs d m = filledGrid fs' d m := by
  induction m with
  | zero => exact gridAt_congr same
  | succ m ih => rw [filledGrid, filledGrid, gridAt_congr same, ih]

theorem sigma_congr (same : ∀ e < d, blockOf fs e = blockOf fs' e) : sigma cfg fs d m = sigma cfg fs' d m := by
  unfold sigma
  by_cases few : d < cfg.lookbackDays
  · rw [if_pos few, if_pos few]
  · have window : ((List.range cfg.lookbackDays).map fun j => filledGrid fs (d - cfg.lookbackDays + j) m) =
        (List.range cfg.lookbackDays).map fun j => filledGrid fs' (d - cfg.lookbackDays + j) m := by
      refine List.map_congr_left fun j mem => filledGrid_congr (same _ ?_)
      have less := List.mem_range.mp mem
      omega
    rw [if_neg few, if_neg few, window]

theorem prevClose_congr (same : ∀ e < d, blockOf fs e = blockOf fs' e) : prevClose fs d = prevClose fs' d := by
  unfold prevClose
  by_cases first : d = 0
  · rw [if_pos first, if_pos first]
  · rw [if_neg first, if_neg first, same (d - 1) (by omega)]

theorem bands_congr (same : ∀ e < d, blockOf fs e = blockOf fs' e) (open_ : openOf fs d = openOf fs' d) :
    upperBand cfg fs d m = upperBand cfg fs' d m ∧ lowerBand cfg fs d m = lowerBand cfg fs' d m := by
  simp only [upperBand, lowerBand, sigma_congr same, prevClose_congr same, open_, and_self]

theorem blockOf_filter {e : Nat} (before : e < d) : blockOf (fs.filter fun p => p.1 < d) e = blockOf fs e := by
  rw [blockOf, blockOf, List.filter_filter]
  refine congrArg (List.map Prod.snd) (List.filter_congr fun p _ => ?_)
  by_cases is_ : p.1 = e
  · simp [is_, before]
  · simp [is_]

end Bands

/-! ## What a position is made of -/

section Cut

variable {cfg} {fs : Frame S} {i k : Nat} (order : fs.Pairwise fun p q => p.1 ≤ q.1)

theorem sameDay_take (before : i + 1 < k) : sameDay (fs.take k) i = sameDay fs i := by
  rw [sameDay, sameDay, List.getElem?_take_of_lt before, List.getElem?_take_of_lt (Nat.lt_of_succ_lt before)]

theorem vwapAt_take (before : i < k) (d : Nat) : vwapAt (fs.take k) i d = vwapAt fs i d := by
  rw [vwapAt, vwapAt, List.take_take, Nat.min_eq_left before]

variable [DecidableEq S]

theorem newMinute_take (before : i < k) : newMinute (fs.take k) i = newMinute fs i := by
  cases i with
  | zero => rfl
  | succ i =>
    rw [newMinute, newMinute, List.getElem?_take_of_lt (Nat.lt_of_succ_lt before), List.getElem?_take_of_lt before]

theorem isCheck_take (before : i < k) : isCheck cfg (fs.take k) i = isCheck cfg fs i := by
  rw [isCheck, isCheck, List.getElem?_take_of_lt before, newMinute_take before]

include order

theorem wanted_take (before : i < k) : wanted cfg (fs.take k) i = wanted cfg fs i := by
  have read : (fs.take k)[i]? = fs[i]? := List.getElem?_take_of_lt before
  unfold wanted
  rw [read]
  cases there : fs[i]? with
  | none => rfl
  | some p =>
    obtain ⟨d, r⟩ := p
    have there' := read.trans there
    have order' := order.sublist (List.take_sublist k fs)
    have same : ∀ e < d, blockOf (fs.take k) e = blockOf fs e := by
      intro e less
      rw [blockOf_take order there less, blockOf_take order' there' less, List.take_take, Nat.min_eq_left before.le]
    have open_ : openOf (fs.take k) d = openOf fs d := by
      have head := blockOf_head there
      have head' := blockOf_head there'
      rw [List.take_take, Nat.min_eq_left before] at head'
      rw [openOf, openOf, head, head']
    have bands : upperBand cfg (fs.take k) d r.mins = upperBand cfg fs d r.mins ∧
        lowerBand cfg (fs.take k) d r.mins = lowerBand cfg fs d r.mins := bands_congr same open_
    simp only [bands.1, bands.2, sigma_congr same, isCheck_take before, vwapAt_take before]

theorem filledWant_take (before : i < k) : filledWant cfg (fs.take k) i = filledWant cfg fs i := by
  induction i with
  | zero => exact wanted_take order before
  | succ i ih =>
    rw [filledWant, filledWant, wanted_take order before, sameDay_take before, ih (Nat.lt_of_succ_lt before)]

theorem sided_take (before : i < k) : sided cfg (fs.take k) i = sided cfg fs i := by
  rw [sided, sided, filledWant_take order before]

theorem firstOfRun_take (before : i < k) : firstOfRun cfg (fs.take k) i = firstOfRun cfg fs i := by
  induction i with
  | zero => exact sided_take order before
  | succ i ih =>
    rw [firstOfRun, firstOfRun, sided_take order before, sided_take order (Nat.lt_of_succ_lt before),
      sameDay_take before, ih (Nat.lt_of_succ_lt before)]

theorem breakoutAt_take (before : i < k) : breakoutAt cfg (fs.take k) i = breakoutAt cfg fs i := by
  rw [breakoutAt, breakoutAt, List.getElem?_take_of_lt before, firstOfRun_take order before]

end Cut

/-! ## Sides -/

section Sides

variable [DecidableEq S] {cfg} {fs : Frame S} {i : Nat}

theorem sign_firstOfRun : (firstOfRun cfg fs i).sign = (sided cfg fs i).sign := by
  induction i with
  | zero => rfl
  | succ i ih =>
    rw [firstOfRun]
    split
    · rfl
    · next stays =>
      rw [not_or, not_not] at stays
      rw [ih, stays.1]

theorem isCheck_of_wanted (set_ : wanted cfg fs i ≠ .nan) : isCheck cfg fs i = true := by
  unfold wanted at set_
  cases there : fs[i]? with
  | none => exact absurd (by rw [there]) set_
  | some p =>
    by_contra not_
    rw [Bool.not_eq_true] at not_
    exact absurd (by simp [there, not_]) set_

theorem isCheck_of_sign (same : sameDay fs i = true)
    (differ : (sided cfg fs i).sign ≠ (sided cfg fs (i + 1)).sign) : isCheck cfg fs (i + 1) = true := by
  refine isCheck_of_wanted fun none_ => differ ?_
  have keeps : filledWant cfg fs (i + 1) = filledWant cfg fs i := by
    rw [filledWant, if_neg (not_not.mpr none_), if_pos same]
  rw [sided, sided, keeps]

end Sides

variable [DecidableEq S]

variable {cfg} in
theorem noiseAreaBreakout_getElem? {rows : List (BreakoutRow S)} {i : Nat} (inside : i < rows.length) :
    (noiseAreaBreakout cfg rows)[i]? = some (breakoutAt cfg (framed rows) i) := by
  rw [noiseAreaBreakout, List.getElem?_map, List.getElem?_range inside, Option.map_some]

/-- A position is known at its row: bands are made of earlier sessions, sides change at checks and from the time on at
which all is flat. -/
theorem breakout_causal (rows : List (BreakoutRow S)) :
    (∀ i k : Nat, i < k → k ≤ rows.length →
      (noiseAreaBreakout cfg (rows.take k))[i]? = (noiseAreaBreakout cfg rows)[i]?) ∧
    (∀ d m : Nat, sigma cfg (framed rows) d m = sigma cfg ((framed rows).filter fun p => p.1 < d) d m) ∧
    (∀ (i : Nat) (r r' : BreakoutRow S) (x x' : NpFloat), rows[i]? = some r → rows[i + 1]? = some r' →
      r'.session = r.session → (noiseAreaBreakout cfg rows)[i]? = some x →
        (noiseAreaBreakout cfg rows)[i + 1]? = some x' → x'.sign ≠ x.sign →
          isCheck cfg (framed rows) (i + 1) = true ∨ (cfg.flatAt ≤ r'.minute ↔ r.minute < cfg.flatAt)) ∧
    ∀ (i : Nat) (r : BreakoutRow S), rows[i]? = some r → cfg.flatAt ≤ r.minute →
      (noiseAreaBreakout cfg rows)[i]? = some (.fin 0) := by
  have order : (framed rows).Pairwise fun p q => p.1 ≤ q.1 := numbered_sorted BreakoutRow.session rows
  refine ⟨?_, ?_, ?_, ?_⟩
  · intro i k before inside
    have short : i < (rows.take k).length := by rw [List.length_take]; omega
    rw [noiseAreaBreakout_getElem? short, noiseAreaBreakout_getElem? (by omega), framed, numbered_take, ← framed,
      breakoutAt_take order before]
  · exact fun d m => sigma_congr fun e less => (blockOf_filter less).symm
  · intro i r r' x x' there there' session at_ at_' differ
    rw [noiseAreaBreakout_getElem? (List.getElem?_eq_some_iff.mp there).1] at at_
    rw [noiseAreaBreakout_getElem? (List.getElem?_eq_some_iff.mp there').1] at at_'
    cases Option.some.inj at_
    cases Option.some.inj at_'
    obtain ⟨d, read⟩ := getElem?_numbered BreakoutRow.session there
    obtain ⟨d', read'⟩ := getElem?_numbered BreakoutRow.session there'
    rw [← framed] at read read'
    have same : sameDay (framed rows) i = true := by
      have is_ : d' = d := (numbered_eq_iff read read').mpr session
      simp [sameDay, read, read', is_]
    by_cases late : cfg.flatAt ≤ r.minute
    · by_cases late' : cfg.flatAt ≤ r'.minute
      · exact absurd (by simp [breakoutAt, read, read', late, late']) differ
      · exact .inr (by simp [late, late'])
    · by_cases late' : cfg.flatAt ≤ r'.minute
      · exact .inr (by simpa [late'] using late)
      · refine .inl (isCheck_of_sign same fun equal => differ ?_)
        have is_ : breakoutAt cfg (framed rows) i = firstOfRun cfg (framed rows) i := by
          simp [breakoutAt, read, late]
        have is_' : breakoutAt cfg (framed rows) (i + 1) = firstOfRun cfg (framed rows) (i + 1) := by
          simp [breakoutAt, read', late']
        rw [is_, is_', sign_firstOfRun, sign_firstOfRun, equal]
  · intro i r there late
    obtain ⟨d, read⟩ := getElem?_numbered BreakoutRow.session there
    rw [noiseAreaBreakout_getElem? (List.getElem?_eq_some_iff.mp there).1, breakoutAt, framed, read]
    simp [late]

def rowAt (session hour minute : Nat) (price : ℚ) : BreakoutRow Nat :=
  { session := session, second := Fin.ofNat 86400 (hour * 3600 + minute * 60), price := .fin price, volume := .fin 1,
    size := .nan, gate := true }

def quietThenBreak : List (BreakoutRow Nat) :=
  [rowAt 0 10 0 100, rowAt 0 10 30 101, rowAt 1 10 0 100, rowAt 1 10 30 110, rowAt 1 15 55 111]

def halfHours : BreakoutSettings :=
  { lookbackDays := 1, bandMult := .fin 1, checkEvery := 30, firstCheck := 600, flatAt := 955, size := some (.fin 2) }

/-- A breakout is traded at a check, and ends at the time from which all is flat. -/
theorem breakout_causal_quiet :
    noiseAreaBreakout halfHours quietThenBreak = [.fin 0, .fin 0, .fin 0, .fin 2, .fin 0] ∧
      (noiseAreaBreakout halfHours (quietThenBreak.take 4))[3]? = some (.fin 2) ∧
      isCheck halfHours (framed quietThenBreak) 3 = true ∧
      (noiseAreaBreakout halfHours quietThenBreak)[4]? = some (.fin 0) := by
  have run : noiseAreaBreakout halfHours quietThenBreak = [.fin 0, .fin 0, .fin 0, .fin 2, .fin 0] := by
    with_unfolding_all decide
  obtain ⟨causal, -, sides, flat⟩ := breakout_causal halfHours quietThenBreak
  refine ⟨run, ?_, ?_, flat 4 (rowAt 1 15 55 111) rfl (by with_unfolding_all decide)⟩
  · rw [causal 3 4 (by decide) (by decide), run]
    rfl
  · have turn := sides 2 (rowAt 1 10 0 100) (rowAt 1 10 30 110) (.fin 0) (.fin 2) rfl rfl rfl
      (by rw [run]; rfl) (by rw [run]; rfl) (by decide)
    exact turn.resolve_right (by with_unfolding_all decide)

end FreeSwarm.Sandbox
