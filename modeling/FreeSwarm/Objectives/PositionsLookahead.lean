import FreeSwarm.Foundation.Double
import FreeSwarm.Objectives.Candidates
import Mathlib.Tactic.Positivity

/-!
# Positions with and without the future

A script reports positions, each with a moment, and runs twice: on all rows, and on the rows before a cut. Every
position that the first run reports before the cut is looked up in the second one.
-/

namespace FreeSwarm.Objectives

open FreeSwarm.Foundation

/-! ## Position files -/

/-- A row of a file of positions. A moment is in nanoseconds. -/
structure Report where
  t : Option Int
  pos : Option Double
deriving DecidableEq

/-- `CAST(t AS TIMESTAMP)`: the microsecond of a moment. -/
def micros (t : Int) : Int := t.tdiv 1000

variable (rows : List Report)

def instants : List Int := ((rows.filterMap Report.t).map micros).eraseDups

def rowsAt (instant : Int) : List Report :=
  rows.filter fun row => row.t.any fun t => micros t = instant

/-- `arg_max(pos, t)`: the position that is reported last, of those that are not null. -/
def argMax : Option Double :=
  let known := rows.filter fun row => row.pos.isSome
  (known.filterMap Report.t).max?.bind fun last => (known.find? fun row => row.t = some last).bind Report.pos

/-- `side`: the position of each microsecond before a cut. -/
def side (cut : Int) : List (Int × Option Double) :=
  ((instants rows).filter fun instant => instant < cut).map fun instant =>
    (instant, argMax (rowsAt rows instant))

/-- `LEFT JOIN`: the position of the other side, or null. -/
def joined (other : List (Int × Option Double)) (instant : Int) : Option Double :=
  (other.lookup instant).join

variable (r : Double.Rounding)

/-- `1e-9 + 1e-6 * abs(a.pos)`. -/
def tolerance (x : Double) : Double :=
  Double.add r (.finite (1 / 1000000000)) (Double.scale r (1 / 1000000) (Double.abs x))

/-- `differs`: the other position is null, or off by more than the tolerance. A condition that is null counts
nothing. -/
def differs : Option Double → Option Double → Bool
  | _, none => true
  | none, some _ => false
  | some x, some y => Double.lt (tolerance r x) (Double.abs (Double.sub r x y))

/-! ## The comparison -/

/-- What the comparison of two files says, and what its message counts. -/
structure Comparison where
  verdict : Lookahead
  /-- `n`: the positions of the full run before the cut. -/
  n : Nat
  /-- `bad`: those that changed. -/
  bad : Nat
  /-- `first`: the first of those. -/
  first : Option Int
deriving DecidableEq

def positionsLookahead (full trunc : List Report) (cut : Int) : Comparison :=
  let a := side full cut
  let b := side trunc cut
  let changed := a.filter fun position => differs r position.2 (joined b position.1)
  let verdict := if a.length < 5 then Lookahead.error else if changed.length = 0 then .pass else .fail
  { verdict := verdict
    n := a.length
    bad := changed.length
    first := (changed.map Prod.fst).min? }

/-! ## Positions in force -/

def inForceSince (rows : List Report) (bar : Int) : Option Int :=
  ((instants rows).filter fun instant => instant ≤ bar).max?

/-- `ASOF LEFT JOIN`: the position in force at a bar. -/
def asOf (rows : List Report) (bar : Int) : Option Double :=
  (inForceSince rows bar).bind fun instant => argMax (rowsAt rows instant)

/-- `CAST(t AS DATE)`, in microseconds. -/
def dateOf (t : Int) : Int := t / 86400000000

/-- `held_sql`: the position over a bar, which is flat if none is in force, and at the last bar of a day if
positions are kept within days. -/
def heldSql (intraday : Bool) (px : List Int) (rows : List Report) (bar : Int) : Double :=
  if intraday ∧ ∀ other ∈ px, dateOf other = dateOf bar → other ≤ bar then .finite 0
  else (asOf rows bar).getD (.finite 0)

/-! ## Scripts -/

structure DataRow (Value : Type) where
  t : Int
  value : Value

variable {Value : Type}

/-- `build_mirror`: the rows before a cut. -/
def buildMirror (data : List (DataRow Value)) (cut : Int) : List (DataRow Value) :=
  data.filter fun row => row.t < cut

def rowsUpTo (data : List (DataRow Value)) (t : Int) : List (DataRow Value) :=
  data.filter fun row => 1000 * row.t ≤ t

def reportsAt (rows : List Report) (t : Int) : List Report := rows.filter fun row => row.t = some t

def Causal (script : List (DataRow Value) → List Report) : Prop :=
  ∀ data data' t, rowsUpTo data t = rowsUpTo data' t → reportsAt (script data) t = reportsAt (script data') t

/-- Every position is a number. -/
def AllFinite (rows : List Report) : Prop := ∀ row ∈ rows, ∃ q, row.pos = some (.finite q)

/-! ## What a file reports -/

variable {r} {rows rows' : List Report}

theorem le_micros (t : Int) : t / 1000 ≤ micros t := by
  unfold micros
  rw [Int.tdiv_eq_ediv]
  split_ifs
  · omega
  · have one : Int.sign 1000 = 1 := rfl
    omega

variable {instant : Int}

theorem mem_instants :
    instant ∈ instants rows ↔ ∃ row ∈ rows, ∃ t, row.t = some t ∧ micros t = instant := by
  unfold instants
  rw [List.mem_eraseDups, List.mem_map]
  constructor
  · rintro ⟨t, mem, same⟩
    obtain ⟨row, there, at_⟩ := List.mem_filterMap.mp mem
    exact ⟨row, there, t, at_, same⟩
  · rintro ⟨row, there, t, at_, same⟩
    exact ⟨t, List.mem_filterMap.mpr ⟨row, there, at_⟩, same⟩

theorem lookup_pairs {Value : Type} (f : Int → Value) (keys : List Int) (key : Int) :
    (keys.map fun key => (key, f key)).lookup key = if key ∈ keys then some (f key) else none := by
  induction keys with
  | nil => rfl
  | cons first rest ih =>
    rw [List.map_cons, List.lookup_cons, ih]
    by_cases same : key = first
    · subst same
      simp
    · rw [beq_false_of_ne same]
      simp [same]

theorem joined_side {cut instant : Int} (before : instant < cut) :
    joined (side rows cut) instant =
      if instant ∈ instants rows then argMax (rowsAt rows instant) else none := by
  unfold joined side
  rw [lookup_pairs]
  simp only [List.mem_filter, before, decide_true, and_true]
  split_ifs
  · rfl
  · rfl

theorem mem_times {t : Int} : t ∈ rows.filterMap Report.t ↔ reportsAt rows t ≠ [] := by
  rw [List.mem_filterMap]
  constructor
  · rintro ⟨row, there, at_⟩
    exact List.ne_nil_of_mem (List.mem_filter.mpr ⟨there, decide_eq_true at_⟩)
  · intro some_
    obtain ⟨row, mem⟩ := List.exists_mem_of_ne_nil _ some_
    obtain ⟨there, at_⟩ := List.mem_filter.mp mem
    exact ⟨row, there, of_decide_eq_true at_⟩

theorem max?_congr {times times' : List Int} (same : ∀ t, t ∈ times ↔ t ∈ times') :
    times.max? = times'.max? := by
  cases last : times.max? with
  | none =>
    rw [List.max?_eq_none_iff] at last
    refine (List.max?_eq_none_iff.mpr (List.eq_nil_iff_forall_not_mem.mpr fun t mem => ?_)).symm
    have there := (same t).mpr mem
    rw [last] at there
    nomatch there
  | some t =>
    obtain ⟨mem, latest⟩ := List.max?_eq_some_iff.mp last
    refine (List.max?_eq_some_iff.mpr ⟨(same t).mp mem, fun t' mem' => ?_⟩).symm
    exact latest t' ((same t').mpr mem')

theorem argMax_congr (same : ∀ t, reportsAt rows t = reportsAt rows' t) : argMax rows = argMax rows' := by
  have known (t : Int) : reportsAt (rows.filter fun row => row.pos.isSome) t =
      reportsAt (rows'.filter fun row => row.pos.isSome) t := by
    have both := congrArg (List.filter fun row : Report => row.pos.isSome) (same t)
    unfold reportsAt at both ⊢
    rw [List.filter_comm, both, List.filter_comm]
  have times : ((rows.filter fun row => row.pos.isSome).filterMap Report.t).max? =
      ((rows'.filter fun row => row.pos.isSome).filterMap Report.t).max? := by
    refine max?_congr fun t => ?_
    rw [mem_times, mem_times, known]
  have found (t : Int) : (rows.filter fun row => row.pos.isSome).find? (fun row => row.t = some t) =
      (rows'.filter fun row => row.pos.isSome).find? (fun row => row.t = some t) := by
    have heads := congrArg List.head? (known t)
    unfold reportsAt at heads
    rwa [List.head?_filter, List.head?_filter] at heads
  simp only [argMax, times, found]

theorem argMax_rowsAt
    (same : ∀ t, micros t = instant → reportsAt rows t = reportsAt rows' t) :
    argMax (rowsAt rows instant) = argMax (rowsAt rows' instant) := by
  have inside (list : List Report) (t : Int) : reportsAt (rowsAt list instant) t =
      if micros t = instant then reportsAt list t else [] := by
    unfold reportsAt rowsAt
    rw [List.filter_filter]
    split_ifs with lies
    · refine List.filter_congr fun row _ => ?_
      by_cases at_ : row.t = some t
      · simp [at_, lies]
      · simp [at_]
    · refine List.filter_eq_nil_iff.mpr fun row _ both => ?_
      simp only [Bool.and_eq_true, decide_eq_true_eq] at both
      rw [both.1, Option.any_some] at both
      exact lies (of_decide_eq_true both.2)
  refine argMax_congr fun t => ?_
  rw [inside, inside]
  split_ifs with lies
  · exact same t lies
  · rfl

theorem AllFinite.argMax (finite : AllFinite rows) (mem : instant ∈ instants rows) :
    ∃ q, Objectives.argMax (rowsAt rows instant) = some (.finite q) := by
  obtain ⟨row, there, t, at_, lies⟩ := mem_instants.mp mem
  have known : (rowsAt rows instant).filter (fun row => row.pos.isSome) = rowsAt rows instant := by
    refine List.filter_eq_self.mpr fun row' mem' => ?_
    obtain ⟨q, number⟩ := finite row' (List.mem_filter.mp mem').1
    rw [number]
    rfl
  have inside : row ∈ rowsAt rows instant := by
    refine List.mem_filter.mpr ⟨there, ?_⟩
    rw [at_, Option.any_some]
    exact decide_eq_true lies
  have time : t ∈ (rowsAt rows instant).filterMap Report.t := List.mem_filterMap.mpr ⟨row, inside, at_⟩
  obtain ⟨last, latest⟩ := Option.isSome_iff_exists.mp (List.isSome_max?_of_mem time)
  obtain ⟨row', inside', at_'⟩ := List.mem_filterMap.mp (List.max?_eq_some_iff.mp latest).1
  obtain ⟨found, is_⟩ : ∃ found, (rowsAt rows instant).find? (fun row => row.t = some last) = some found :=
    Option.isSome_iff_exists.mp (List.find?_isSome.mpr ⟨row', inside', decide_eq_true at_'⟩)
  obtain ⟨q, number⟩ := finite found (List.mem_filter.mp (List.mem_of_find?_eq_some is_)).1
  refine ⟨q, ?_⟩
  simp only [Objectives.argMax, known, latest, Option.bind_some, is_, number]

theorem tolerance_nonneg (r : Double.Rounding) (q : ℚ) :
    tolerance r (.finite q) = .posInf ∨ ∃ q', 0 ≤ q' ∧ tolerance r (.finite q) = .finite q' := by
  have sum : tolerance r (.finite q) =
      Double.add r (.finite (1 / 1000000000)) (r.round (1 / 1000000 * |q|)) := rfl
  have scaled : (0 : ℚ) ≤ 1 / 1000000 * |q| := by positivity
  obtain inf | ⟨q', sign, is_⟩ := r.nonneg _ scaled
  · rw [sum, inf]
    exact .inl rfl
  · rw [sum, is_]
    exact r.nonneg _ (by positivity)

theorem differs_self (r : Double.Rounding) (q : ℚ) :
    differs r (some (.finite q)) (some (.finite q)) = false := by
  show Double.lt (tolerance r _) (Double.abs (Double.sub r (.finite q) (.finite q))) = false
  rw [Double.sub_self]
  exact Double.not_lt_zero (tolerance_nonneg r q)

/-! ## Scripts that look at nothing later -/

theorem Causal.buildMirror {script : List (DataRow Value) → List Report} (causal : Causal script)
    (data : List (DataRow Value)) {cut t : Int} (before : micros t < cut) :
    reportsAt (script data) t = reportsAt (script (buildMirror data cut)) t := by
  refine causal _ _ t ?_
  unfold rowsUpTo Objectives.buildMirror
  rw [List.filter_filter]
  refine List.filter_congr fun row _ => ?_
  by_cases upTo : 1000 * row.t ≤ t
  · have early : row.t < cut := by
      have le := le_micros t
      omega
    simp [upTo, early]
  · simp [upTo]

theorem Causal.instants {script : List (DataRow Value) → List Report} (causal : Causal script)
    (data : List (DataRow Value)) {cut instant : Int} (before : instant < cut)
    (mem : instant ∈ instants (script data)) :
    instant ∈ Objectives.instants (script (Objectives.buildMirror data cut)) := by
  obtain ⟨row, there, t, at_, lies⟩ := mem_instants.mp mem
  have reported : row ∈ reportsAt (script data) t := List.mem_filter.mpr ⟨there, decide_eq_true at_⟩
  rw [causal.buildMirror data (lies ▸ before)] at reported
  exact mem_instants.mpr ⟨row, (List.mem_filter.mp reported).1, t, at_, lies⟩

variable {full trunc : List Report}

theorem bad_eq_zero_iff {cut : Int} :
    (positionsLookahead r full trunc cut).bad = 0 ↔
      ∀ instant ∈ instants full, instant < cut →
        differs r (argMax (rowsAt full instant)) (joined (side trunc cut) instant) = false := by
  show (List.filter _ (side full cut)).length = 0 ↔ _
  rw [List.length_eq_zero_iff, List.filter_eq_nil_iff]
  constructor
  · intro same instant mem before
    refine Bool.eq_false_iff.mpr (same (instant, argMax (rowsAt full instant)) ?_)
    exact List.mem_map.mpr ⟨instant, List.mem_filter.mpr ⟨mem, decide_eq_true before⟩, rfl⟩
  · intro same position mem changed
    obtain ⟨instant, there, rfl⟩ := List.mem_map.mp mem
    have inside := List.mem_filter.mp there
    rw [same instant inside.1 (of_decide_eq_true inside.2)] at changed
    nomatch changed

theorem verdict_cases {cut : Int} :
    ((positionsLookahead r full trunc cut).verdict = .fail → (positionsLookahead r full trunc cut).bad ≠ 0) ∧
      ((positionsLookahead r full trunc cut).verdict = .pass →
        (positionsLookahead r full trunc cut).bad = 0) := by
  unfold positionsLookahead
  dsimp only
  split_ifs with few none_
  · exact ⟨nofun, nofun⟩
  · exact ⟨nofun, fun _ => none_⟩
  · exact ⟨fun _ => none_, nofun⟩

theorem not_fail_of_causal (r : Double.Rounding) {script : List (DataRow Value) → List Report}
    (causal : Causal script) (data : List (DataRow Value)) (finite : AllFinite (script data)) (cut : Int) :
    (positionsLookahead r (script data) (script (buildMirror data cut)) cut).verdict ≠ .fail := by
  intro fail
  refine verdict_cases.1 fail (bad_eq_zero_iff.mpr fun instant mem before => ?_)
  rw [joined_side before, if_pos (causal.instants data before mem)]
  rw [← argMax_rowsAt fun t lies => causal.buildMirror data (lies ▸ before)]
  obtain ⟨q, number⟩ := finite.argMax mem
  rw [number]
  exact differs_self r q

/-! ## Positions in force -/

theorem inForceSince_eq_some {bar instant : Int} :
    inForceSince rows bar = some instant ↔
      instant ∈ instants rows ∧ instant ≤ bar ∧ ∀ other ∈ instants rows, other ≤ bar → other ≤ instant := by
  unfold inForceSince
  simp only [List.max?_eq_some_iff, List.mem_filter, decide_eq_true_eq, and_imp, and_assoc]

theorem inForceSince_eq_none {bar : Int} :
    inForceSince rows bar = none ↔ ∀ instant ∈ instants rows, ¬instant ≤ bar := by
  unfold inForceSince
  simp only [List.max?_eq_none_iff, List.filter_eq_nil_iff, decide_eq_true_eq]

theorem asOf_of_pass {cut bar : Int} (finite : AllFinite full)
    (pass : (positionsLookahead r full trunc cut).verdict = .pass) (before : bar < cut)
    (shared : ∀ instant, inForceSince trunc bar = some instant → instant ∈ instants full) :
    (asOf full bar = none ∧ asOf trunc bar = none) ∨
      ∃ x y, asOf full bar = some x ∧ asOf trunc bar = some y ∧ differs r (some x) (some y) = false := by
  have same := bad_eq_zero_iff.mp (verdict_cases.2 pass)
  cases since : inForceSince full bar with
  | none =>
    refine .inl ?_
    have none_ : inForceSince trunc bar = none := by
      cases since' : inForceSince trunc bar with
      | none => rfl
      | some instant =>
        have upTo := (inForceSince_eq_some.mp since').2.1
        exact absurd upTo (inForceSince_eq_none.mp since instant (shared instant since'))
    unfold asOf
    rw [since, none_]
    exact ⟨rfl, rfl⟩
  | some instant =>
    obtain ⟨mem, upTo, latest⟩ := inForceSince_eq_some.mp since
    have early : instant < cut := by omega
    have agrees := same instant mem early
    rw [joined_side early] at agrees
    obtain ⟨q, number⟩ := finite.argMax mem
    by_cases mem' : instant ∈ instants trunc
    · rw [if_pos mem', number] at agrees
      have since' : inForceSince trunc bar = some instant := by
        cases later : inForceSince trunc bar with
        | none => exact absurd upTo (inForceSince_eq_none.mp later instant mem')
        | some instant' =>
          obtain ⟨-, upTo', latest'⟩ := inForceSince_eq_some.mp later
          have le := latest instant' (shared instant' later) upTo'
          have ge := latest' instant mem' upTo
          exact congrArg some (by omega)
      unfold asOf
      rw [since, since', Option.bind_some, Option.bind_some, number]
      cases other : argMax (rowsAt trunc instant) with
      | none =>
        rw [other] at agrees
        nomatch agrees
      | some y =>
        rw [other] at agrees
        exact .inr ⟨_, y, rfl, rfl, agrees⟩
    · rw [if_neg mem', number] at agrees
      nomatch agrees

theorem heldSql_of_pass {cut bar : Int} (finite : AllFinite full)
    (pass : (positionsLookahead r full trunc cut).verdict = .pass) (before : bar < cut)
    (shared : ∀ instant, inForceSince trunc bar = some instant → instant ∈ instants full)
    (intraday : Bool) (px : List Int) :
    differs r (some (heldSql intraday px full bar)) (some (heldSql intraday px trunc bar)) = false := by
  unfold heldSql
  split_ifs
  · exact differs_self r 0
  · obtain ⟨none_, none_'⟩ | ⟨x, y, is_, is_', agrees⟩ := asOf_of_pass finite pass before shared
    · rw [none_, none_']
      exact differs_self r 0
    · rw [is_, is_']
      exact agrees

/-- Where positions are numbers, no causal script fails, and two runs that pass hold the same positions before
the cut, except for those that only the run without the future reports. -/
theorem lookahead_sound (r : Double.Rounding) :
    (∀ script : List (DataRow Value) → List Report, Causal script → ∀ data, AllFinite (script data) →
      ∀ cut, (positionsLookahead r (script data) (script (buildMirror data cut)) cut).verdict ≠ .fail) ∧
    ∀ full trunc cut, AllFinite full → (positionsLookahead r full trunc cut).verdict = .pass →
      ∀ bar < cut, (∀ instant, inForceSince trunc bar = some instant → instant ∈ instants full) →
        ∀ intraday px,
          differs r (some (heldSql intraday px full bar)) (some (heldSql intraday px trunc bar)) = false :=
  ⟨fun _ causal data finite cut => not_fail_of_causal r causal data finite cut,
    fun _ _ _ finite pass _ before shared intraday px => heldSql_of_pass finite pass before shared intraday px⟩

/-! ## Runs that pass, and runs that fail -/

def eachRow (position : Value → Option Double) (data : List (DataRow Value)) : List Report :=
  data.map fun row => ⟨some (1000 * row.t), position row.value⟩

theorem eachRow_causal (position : Value → Option Double) : Causal (eachRow position) := by
  intro data data' t same
  have reports (data : List (DataRow Value)) : reportsAt (eachRow position data) t =
      eachRow position ((rowsUpTo data t).filter fun row => 1000 * row.t = t) := by
    unfold reportsAt eachRow rowsUpTo
    rw [List.filter_map, List.filter_filter]
    congr 1
    refine List.filter_congr fun row _ => ?_
    by_cases at_ : 1000 * row.t = t
    · simp [at_]
    · simp [at_]
  rw [reports, reports, same]

/-- A script that is long while the value of a row is positive. -/
def follow : List (DataRow Int) → List Report :=
  eachRow fun value => some (.finite (if 0 < value then 1 else 0))

def sixRows : List (DataRow Int) := [⟨1, 5⟩, ⟨2, -1⟩, ⟨3, 0⟩, ⟨4, 2⟩, ⟨5, 1⟩, ⟨6, 7⟩]

/-- The sixth row changes nothing before it. -/
theorem follow_sound :
    (positionsLookahead .exact (follow sixRows) (follow (buildMirror sixRows 6)) 6).verdict ≠ .fail ∧
      differs .exact (some (heldSql false [1, 2, 3, 4, 5, 6] (follow sixRows) 5))
        (some (heldSql false [1, 2, 3, 4, 5, 6] (follow (buildMirror sixRows 6)) 5)) = false := by
  have finite : AllFinite (follow sixRows) := by
    intro row mem
    obtain ⟨data, -, rfl⟩ := List.mem_map.mp mem
    exact ⟨_, rfl⟩
  have sound := @lookahead_sound Int .exact
  refine ⟨sound.1 follow (eachRow_causal _) sixRows finite 6, ?_⟩
  refine sound.2 _ (follow (buildMirror sixRows 6)) 6 finite (by with_unfolding_all decide) 5
    (by decide) ?_ false _
  intro instant since
  obtain rfl : 5 = instant :=
    Option.some.inj ((by with_unfolding_all decide : inForceSince _ 5 = some 5).symm.trans since)
  with_unfolding_all decide

def flatAt (times : List Int) : List Report := times.map fun t => ⟨some (1000 * t), some (.finite 0)⟩

/-- The run without the future reports one position more, which nothing compares; and a position that is null
differs from itself. -/
theorem extraReport_passes :
    (∃ full trunc : List Report, ∃ cut bar last : Int,
      (positionsLookahead .exact full trunc cut).verdict = .pass ∧ bar < cut ∧ last ∈ instants trunc ∧
        bar < last ∧ differs .exact (asOf full bar) (asOf trunc bar) = true) ∧
    ∃ script : List (DataRow Int) → List Report, Causal script ∧
      (positionsLookahead .exact (script sixRows) (script (buildMirror sixRows 6)) 6).verdict = .fail := by
  refine ⟨⟨flatAt [1, 2, 3, 4, 7], flatAt [1, 2, 3, 4] ++ ⟨some 5000, some (.finite 1)⟩ :: flatAt [7], 9, 6, 7,
    by with_unfolding_all decide⟩, eachRow fun _ => none, eachRow_causal _, by with_unfolding_all decide⟩

end FreeSwarm.Objectives
