import FreeSwarm.Sandbox.Search
import Mathlib.Algebra.Order.Field.Rat
import Mathlib.Data.List.GetD

/-!
# What a search knows of the rows

The sessions of the rows before a cut are those of all rows, up to the one that the cut lies in. What trials
earn in a session that is over stays, so that the periods before the cut trade what they would trade anyway.
-/

namespace FreeSwarm.Sandbox

open FreeSwarm.Console (starts)

/-! ## Where stretches begin -/

theorem starts_take (values : List Int) (k : Nat) :
    ∃ rest, starts values = starts (values.take k) ++ rest ∧ ∀ start ∈ rest, k ≤ start := by
  by_cases long : values.length ≤ k
  · rw [List.take_of_length_le long]
    exact ⟨[], (List.append_nil _).symm, nofun⟩
  · have length : values.length = k + (values.length - k) := by omega
    refine ⟨((List.range (values.length - k)).map fun j => k + j).filter fun j =>
      decide (j = 0 ∨ values[j]? ≠ values[j - 1]?), ?_, fun start mem => ?_⟩
    · have split := (congrArg List.range length).trans List.range_add
      unfold starts
      rw [split, List.filter_append, List.length_take, Nat.min_eq_left (by omega)]
      refine congrArg (· ++ _) (List.filter_congr fun j mem => ?_)
      have lt := List.mem_range.mp mem
      rw [List.getElem?_take_of_lt lt, List.getElem?_take_of_lt (by omega)]
    · obtain ⟨j, -, rfl⟩ := List.mem_map.mp (List.mem_filter.mp mem).1
      omega

theorem lt_of_mem_starts {values : List Int} {start : Nat} (mem : start ∈ starts values) :
    start < values.length := List.mem_range.mp (List.mem_filter.mp mem).1

theorem starts_sorted (values : List Int) : (starts values).Pairwise (· < ·) :=
  List.pairwise_lt_range.filter _

/-! ## Rows before a cut -/

variable {V E Row : Type} {env : Env V Row} {q : Request V} {rows : List Row} {k : Nat}

theorem begins_take (env : Env V Row) (rows : List Row) (k : Nat) :
    ∃ rest, begins env rows = begins env (rows.take k) ++ rest ∧ ∀ start ∈ rest, k ≤ start := by
  unfold begins
  rw [List.map_take]
  exact starts_take _ k

theorem lt_of_mem_begins {start : Nat} (mem : start ∈ begins env rows) : start < rows.length := by
  have lt := lt_of_mem_starts mem
  rwa [List.length_map] at lt

theorem begins_getElem? {d : Nat} (before : d < (begins env (rows.take k)).length) :
    (begins env rows)[d]? = (begins env (rows.take k))[d]? := by
  obtain ⟨rest, split, -⟩ := begins_take env rows k
  rw [split, List.getElem?_append_left before]

theorem le_begins {d start : Nat} (after : (begins env (rows.take k)).length ≤ d)
    (there : (begins env rows)[d]? = some start) : k ≤ start := by
  obtain ⟨rest, split, later⟩ := begins_take env rows k
  rw [split, List.getElem?_append_right after] at there
  exact later start (List.mem_of_getElem? there)

theorem ends_getElem? {d : Nat} (inside : d < (begins env rows).length) :
    (ends env rows)[d]? = some (((begins env rows)[d + 1]?).getD rows.length) := by
  unfold ends
  by_cases last : d + 1 < (begins env rows).length
  · rw [List.getElem?_append_left (by rw [List.length_tail]; omega), List.getElem?_tail,
      List.getElem?_eq_getElem last, Option.getD_some]
  · rw [List.getElem?_append_right (by rw [List.length_tail]; omega), List.length_tail,
      List.getElem?_eq_none (Nat.not_lt.mp last), Option.getD_none, show d - ((begins env rows).length - 1) = 0 by omega]
    rfl

theorem ends_take (inside : k ≤ rows.length) {d end_ : Nat} (before : d < (begins env (rows.take k)).length)
    (there : (ends env rows)[d]? = some end_) (ended : end_ ≤ k) :
    (ends env (rows.take k))[d]? = some end_ := by
  obtain ⟨rest, split, -⟩ := begins_take env rows k
  have inside' : d < (begins env rows).length := by
    rw [split, List.length_append]
    omega
  rw [ends_getElem? inside'] at there
  rw [ends_getElem? before, ← there]
  by_cases last : d + 1 < (begins env (rows.take k)).length
  · rw [begins_getElem? last, List.getElem?_eq_getElem last, Option.getD_some, Option.getD_some]
  · rw [List.getElem?_eq_none (Nat.not_lt.mp last), Option.getD_none, List.length_take, Nat.min_eq_left inside]
    have late : k ≤ ((begins env rows)[d + 1]?).getD rows.length := by
      cases next : (begins env rows)[d + 1]? with
      | none => exact inside
      | some start => exact le_begins (Nat.not_lt.mp last) next
    have eq := Option.some.inj there
    exact congrArg some (by omega)

theorem mem_ends_take (inside : k ≤ rows.length) {place : Nat} (before : place < k) :
    place ∈ ends env (rows.take k) ↔ place ∈ ends env rows := by
  obtain ⟨rest, split, later⟩ := begins_take env rows k
  unfold ends
  rw [List.mem_append, List.mem_append, List.mem_singleton, List.mem_singleton, List.length_take,
    Nat.min_eq_left inside]
  have out : place ∉ rest := fun mem => by
    have late := later place mem
    omega
  have tails : place ∈ (begins env rows).tail ↔ place ∈ (begins env (rows.take k)).tail := by
    rw [split]
    cases first : begins env (rows.take k) with
    | nil =>
      simp only [List.nil_append, List.tail_nil, List.not_mem_nil, iff_false]
      exact fun mem => out (List.mem_of_mem_tail mem)
    | cons start others =>
      rw [List.cons_append, List.tail_cons, List.tail_cons, List.mem_append]
      exact or_iff_left out
  rw [tails]
  refine or_congr_right ?_
  omega

theorem sessionOf_take {i : Nat} (before : i < k) : sessionOf env (rows.take k) i = sessionOf env rows i := by
  obtain ⟨rest, split, later⟩ := begins_take env rows k
  have none_ : rest.filter (fun start => start ≤ i) = [] := by
    refine List.filter_eq_nil_iff.mpr fun start mem up => ?_
    have late := later start mem
    have le := of_decide_eq_true up
    omega
  unfold sessionOf
  rw [split, List.filter_append, none_, List.append_nil]

/-! ## Sessions that are over -/

variable {pos : List V} {cost : V} {delay : Nat}

theorem held_take (inside : k ≤ rows.length) {i end_ : Nat} (session : i < end_) (ended : end_ ≤ k)
    (ends_ : end_ ∈ ends env rows) (ends_' : end_ ∈ ends env (rows.take k)) :
    held env (rows.take k) (pos.take k) delay i = held env rows pos delay i := by
  have last : i + 1 ∈ ends env (rows.take k) ↔ i + 1 ∈ ends env rows := by
    by_cases at_ : i + 1 = end_
    · rw [at_]
      exact iff_of_true ends_' ends_
    · exact mem_ends_take inside (by omega)
  unfold held
  rw [sessionOf_take (by omega), if_congr (or_congr_right last) rfl rfl]
  split_ifs
  · rfl
  · rw [List.getD_eq_getElem?_getD, List.getD_eq_getElem?_getD, List.getElem?_take_of_lt (by omega)]

theorem priceChange_take (inside : k ≤ rows.length) {i end_ : Nat} (session : i < end_) (ended : end_ ≤ k)
    (ends_ : end_ ∈ ends env rows) (ends_' : end_ ∈ ends env (rows.take k)) :
    priceChange env (rows.take k) i = priceChange env rows i := by
  unfold priceChange
  by_cases at_ : i + 1 = end_
  · rw [at_, if_pos ends_, if_pos ends_']
  · rw [if_congr (mem_ends_take inside (by omega)) rfl rfl, List.getElem?_take_of_lt (by omega),
      List.getElem?_take_of_lt (by omega)]

/-- What a trial earns at a row of a session that is over by the cut. -/
theorem netReturn_take (inside : k ≤ rows.length) {i end_ : Nat} (session : i < end_) (ended : end_ ≤ k)
    (ends_ : end_ ∈ ends env rows) (ends_' : end_ ∈ ends env (rows.take k)) :
    netReturn env (rows.take k) (pos.take k) cost delay i = netReturn env rows pos cost delay i := by
  unfold netReturn
  rw [held_take inside session ended ends_ ends_', priceChange_take inside session ended ends_ ends_',
    held_take inside (by omega : i - 1 < end_) ended ends_ ends_']

theorem sessionPnl_take (inside : k ≤ rows.length) {d end_ : Nat}
    (before : d < (begins env (rows.take k)).length) (there : (ends env rows)[d]? = some end_)
    (ended : end_ ≤ k) :
    (sessionPnl env (rows.take k) (pos.take k) cost delay)[d]? = (sessionPnl env rows pos cost delay)[d]? := by
  obtain ⟨rest, split, -⟩ := begins_take env rows k
  have inside' : d < (begins env rows).length := by
    rw [split, List.length_append]
    omega
  have there' := ends_take inside before there ended
  unfold sessionPnl
  rw [List.getElem?_map, List.getElem?_map, List.getElem?_range before, List.getElem?_range inside',
    Option.map_some, Option.map_some]
  simp only [List.getD_eq_getElem?_getD, there, there', Option.getD_some, begins_getElem? before]
  refine congrArg (fun returns => some (env.num.sum returns)) (List.map_congr_left fun i mem => ?_)
  obtain ⟨from_, session⟩ := List.mem_range'_1.mp mem
  refine netReturn_take inside ?_ ended (List.mem_of_getElem? there) (List.mem_of_getElem? there')
  omega

/-! ## Periods before a cut -/

theorem days_take (env : Env V Row) (rows : List Row) (k : Nat) :
    days env (rows.take k) = (days env rows).take (begins env (rows.take k)).length := by
  obtain ⟨rest, split, -⟩ := begins_take env rows k
  unfold days
  rw [split, List.map_append, List.take_left' (List.length_map _)]
  refine List.map_congr_left fun start mem => ?_
  have lt := lt_of_mem_begins mem
  rw [List.length_take] at lt
  rw [List.getElem?_take_of_lt (by omega)]

theorem length_days : (days env rows).length = (begins env rows).length := by
  unfold days
  rw [List.length_map]

theorem periods_take (env : Env V Row) (q : Request V) (rows : List Row) (k : Nat) :
    ∃ rest, periods env q rows = periods env q (rows.take k) ++ rest ∧
      ∀ first ∈ rest, (begins env (rows.take k)).length ≤ first := by
  unfold periods
  rw [days_take, List.map_take]
  exact starts_take _ _

theorem lt_of_mem_periods {first : Nat} (mem : first ∈ periods env q rows) :
    first < (begins env rows).length := by
  have lt := lt_of_mem_starts mem
  rwa [List.length_map, length_days] at lt

theorem periods_lt {j next : Nat} (there : (periods env q rows)[j + 1]? = some next) :
    (periods env q rows).getD j 0 < next := by
  obtain ⟨inside, is_⟩ := List.getElem?_eq_some_iff.mp there
  have before := List.pairwise_iff_getElem.mp (starts_sorted ((days env rows).map fun day =>
    env.month day / q.refit.months)) j (j + 1) (by have := inside; unfold periods at this; omega) inside
    (Nat.lt_succ_self j)
  rw [List.getD_eq_getElem _ _ (by omega), ← is_]
  exact before

variable {family : Family V E Row} {points : List (Point V)}

/-- The positions of each trial before a cut are those that it has there without the cut. -/
def CausalAt (env : Env V Row) (family : Family V E Row) (rows : List Row) (k : Nat) : Prop :=
  ∀ point, trialPositions env family (rows.take k) point = (trialPositions env family rows point).take k

/-- What a choice looks at is over, if the sessions before it are over by the cut. -/
theorem block_take (inside : k ≤ rows.length) (causal : CausalAt env family rows k) {s : Nat}
    (ended : ∀ d < s, d < (begins env (rows.take k)).length ∧
      ∃ end_, (ends env rows)[d]? = some end_ ∧ end_ ≤ k) :
    block env q family points (rows.take k) s = block env q family points rows s := by
  unfold block
  refine List.map_congr_left fun point _ => congrArg (List.drop _) ?_
  refine List.ext_getElem? fun d => ?_
  rw [List.getElem?_take, List.getElem?_take]
  split_ifs with before
  · obtain ⟨seen, end_, there, early⟩ := ended d before
    rw [causal point]
    exact sessionPnl_take inside seen there early
  · rfl

theorem over_of_lt {s : Nat} (before : s < (begins env (rows.take k)).length) :
    ∀ d < s, d < (begins env (rows.take k)).length ∧ ∃ end_, (ends env rows)[d]? = some end_ ∧ end_ ≤ k := by
  intro d lt
  refine ⟨by omega, ?_⟩
  obtain ⟨rest, split, -⟩ := begins_take env rows k
  have inside : d < (begins env rows).length := by
    rw [split, List.length_append]
    omega
  have next : d + 1 < (begins env (rows.take k)).length := by omega
  refine ⟨_, ends_getElem? inside, ?_⟩
  rw [begins_getElem? next, List.getElem?_eq_getElem next, Option.getD_some]
  have early := lt_of_mem_begins (List.getElem_mem next)
  rw [List.length_take] at early
  omega

/-! ## Picks before a cut -/

theorem periods_getD {j : Nat} (before : j < (periods env q (rows.take k)).length) :
    (periods env q rows).getD j 0 = (periods env q (rows.take k)).getD j 0 ∧
      (periods env q (rows.take k)).getD j 0 < (begins env (rows.take k)).length := by
  obtain ⟨rest, split, -⟩ := periods_take env q rows k
  rw [split, List.getD_append _ _ _ _ before]
  refine ⟨rfl, ?_⟩
  rw [List.getD_eq_getElem _ _ before]
  exact lt_of_mem_periods (List.getElem_mem before)

theorem periods_next (env : Env V Row) (q : Request V) (rows : List Row) (k j : Nat) :
    ((periods env q (rows.take k))[j + 1]? = (periods env q rows)[j + 1]? ∧
      ∃ next, (periods env q rows)[j + 1]? = some next ∧ next < (begins env (rows.take k)).length) ∨
    ((periods env q (rows.take k))[j + 1]? = none ∧
      ∀ next, (periods env q rows)[j + 1]? = some next → (begins env (rows.take k)).length ≤ next) := by
  obtain ⟨rest, split, later⟩ := periods_take env q rows k
  by_cases last : j + 1 < (periods env q (rows.take k)).length
  · refine .inl ⟨?_, (periods env q (rows.take k))[j + 1], ?_, lt_of_mem_periods (List.getElem_mem last)⟩
    · rw [split, List.getElem?_append_left last]
    · rw [split, List.getElem?_append_left last, List.getElem?_eq_getElem last]
  · refine .inr ⟨List.getElem?_eq_none (Nat.not_lt.mp last), fun next there => ?_⟩
    rw [split, List.getElem?_append_right (Nat.not_lt.mp last)] at there
    exact later next (List.mem_of_getElem? there)

theorem pickOf_eq_some {j : Nat} {pick : Pick} (is_ : pickOf env q family points rows j = some pick) :
    pick.first = max ((periods env q rows).getD j 0) q.warmup ∧
      pick.stop = ((periods env q rows)[j + 1]?).getD (days env rows).length ∧
        pick.trial = env.pickTrial (block env q family points rows pick.first) := by
  unfold pickOf at is_
  dsimp only at is_
  split_ifs at is_
  cases is_
  exact ⟨rfl, rfl, rfl⟩

theorem pickOf_real {j : Nat} {pick : Pick} (inside : j < (periods env q rows).length)
    (is_ : pickOf env q family points rows j = some pick) : pick.first < (begins env rows).length := by
  have late := (pickOf_eq_some is_).1
  have small : (periods env q rows).getD j 0 < (begins env rows).length := by
    rw [List.getD_eq_getElem _ _ inside]
    exact lt_of_mem_periods (List.getElem_mem inside)
  unfold pickOf at is_
  dsimp only at is_
  rw [length_days] at is_
  split_ifs at is_
  omega

theorem write_late {pick : Pick} {i : Nat} {value : V} (before : i < k)
    (late : (begins env (rows.take k)).length ≤ pick.first) (real : pick.first < (begins env rows).length) :
    pick.write env family points rows i value = value := by
  unfold Pick.write
  cases pick.trial with
  | none => rfl
  | some chosen =>
    dsimp only
    rw [if_neg fun covers => ?_]
    have at_ := List.getElem?_eq_getElem real
    have le := le_begins late at_
    rw [List.getD_eq_getElem _ _ real] at covers
    omega

theorem write_take (causal : CausalAt env family rows k) {pick pick' : Pick}
    {i : Nat} {value : V} (before : i < k) (first : pick'.first = pick.first)
    (seen : pick.first < (begins env (rows.take k)).length) (trial : pick'.trial = pick.trial)
    (stop : i < (ends env (rows.take k)).getD (pick'.stop - 1) 0 ↔ i < (ends env rows).getD (pick.stop - 1) 0) :
    pick'.write env family points (rows.take k) i value = pick.write env family points rows i value := by
  unfold Pick.write
  rw [trial]
  cases pick.trial with
  | none => rfl
  | some chosen =>
    have start : (begins env (rows.take k)).getD pick'.first 0 = (begins env rows).getD pick.first 0 := by
      rw [first, List.getD_eq_getElem?_getD, List.getD_eq_getElem?_getD, begins_getElem? seen]
    have position : (trialPositions env family (rows.take k) (points.getD chosen [])).getD i env.num.zero =
        (trialPositions env family rows (points.getD chosen [])).getD i env.num.zero := by
      rw [causal]
      simp only [List.getD_eq_getElem?_getD, List.getElem?_take_of_lt before]
    dsimp only
    rw [start, position, if_congr (and_congr_right fun _ => stop) rfl rfl]

theorem ends_getD {d : Nat} (inside : d < (begins env rows).length) :
    (ends env rows).getD d 0 = ((begins env rows)[d + 1]?).getD rows.length := by
  rw [List.getD_eq_getElem?_getD, ends_getElem? inside, Option.getD_some]

theorem stop_take (inside : k ≤ rows.length) {i j : Nat} (before : i < k)
    (here : j < (periods env q (rows.take k)).length) :
    i < (ends env (rows.take k)).getD (((periods env q (rows.take k))[j + 1]?).getD
        (days env (rows.take k)).length - 1) 0 ↔
      i < (ends env rows).getD (((periods env q rows)[j + 1]?).getD (days env rows).length - 1) 0 := by
  obtain ⟨rest, split, later⟩ := begins_take env rows k
  obtain ⟨same, next, there, seen⟩ | ⟨none_, cut⟩ := periods_next env q rows k j
  · have positive := Nat.zero_lt_of_lt (periods_lt there)
    have real : next < (begins env rows).length := lt_of_mem_periods (List.mem_of_getElem? there)
    rw [same, there]
    simp only [Option.getD_some]
    rw [ends_getD (by omega), ends_getD (by omega), Nat.sub_add_cancel positive, begins_getElem? seen,
      List.getElem?_eq_getElem seen]
    exact Iff.rfl
  · have some_ : 0 < (begins env (rows.take k)).length := Nat.zero_lt_of_lt (periods_getD here).2
    have whole : (ends env (rows.take k)).getD ((begins env (rows.take k)).length - 1) 0 = k := by
      rw [ends_getD (by omega), Nat.sub_add_cancel some_, List.getElem?_eq_none (Nat.le_refl _), Option.getD_none,
        List.length_take, Nat.min_eq_left inside]
    rw [none_, Option.getD_none, length_days, whole]
    refine iff_of_true before ?_
    have bound : (begins env (rows.take k)).length ≤
        ((periods env q rows)[j + 1]?).getD (days env rows).length := by
      cases next : (periods env q rows)[j + 1]? with
      | none =>
        rw [Option.getD_none, length_days, split, List.length_append]
        omega
      | some next_ => exact cut next_ next
    have real : ((periods env q rows)[j + 1]?).getD (days env rows).length ≤ (begins env rows).length := by
      cases next : (periods env q rows)[j + 1]? with
      | none =>
        rw [Option.getD_none, length_days]
      | some next_ => exact Nat.le_of_lt (lt_of_mem_periods (List.mem_of_getElem? next))
    rw [ends_getD (by omega), Nat.sub_add_cancel (by omega)]
    cases start : (begins env rows)[((periods env q rows)[j + 1]?).getD (days env rows).length]? with
    | none => exact Nat.lt_of_lt_of_le before inside
    | some start_ => exact Nat.lt_of_lt_of_le before (le_begins bound start)

theorem pick_take (inside : k ≤ rows.length) (causal : CausalAt env family rows k) {i j : Nat} (before : i < k)
    (here : j < (periods env q (rows.take k)).length) (value : V) :
    writePeriod env q family points (rows.take k) i value j = writePeriod env q family points rows i value j := by
  unfold writePeriod
  obtain ⟨first, seen⟩ := periods_getD here
  have cutDays : (days env (rows.take k)).length = (begins env (rows.take k)).length := length_days
  obtain ⟨rest, split, -⟩ := begins_take env rows k
  have allDays : (begins env (rows.take k)).length ≤ (days env rows).length := by
    rw [length_days, split, List.length_append]
    omega
  -- the warm-up ends before the cut, or no session before the cut is traded
  by_cases warm : max ((periods env q rows).getD j 0) q.warmup < (begins env (rows.take k)).length
  · have skips : ((periods env q (rows.take k))[j + 1]?).any (fun next => next ≤ q.warmup) =
        ((periods env q rows)[j + 1]?).any (fun next => next ≤ q.warmup) := by
      obtain ⟨same, -⟩ | ⟨none_, cut⟩ := periods_next env q rows k j
      · rw [same]
      · rw [none_]
        cases next : (periods env q rows)[j + 1]? with
        | none => rfl
        | some next_ =>
          have late := cut next_ next
          refine (decide_eq_false ?_).symm
          omega
    unfold pickOf
    simp only [first] at warm ⊢
    rw [skips]
    by_cases skip : (periods env q (rows.take k)).getD j 0 < q.warmup ∧
        ((periods env q rows)[j + 1]?).any (fun next => next ≤ q.warmup) = true
    · rw [if_pos skip, if_pos skip]
      rfl
    · rw [if_neg skip, if_neg skip, if_neg (by omega), if_neg (by omega)]
      refine write_take causal before rfl warm ?_ (stop_take inside before here)
      exact congrArg env.pickTrial (block_take inside causal (over_of_lt warm))
  · have cold : q.warmup ≤ (periods env q rows).getD j 0 ∨
        (begins env (rows.take k)).length ≤ q.warmup := by omega
    have none_ : pickOf env q family points (rows.take k) j = none := by
      have early : (periods env q (rows.take k)).getD j 0 < q.warmup := by omega
      unfold pickOf
      dsimp only
      split_ifs with skip
      · rfl
      · rfl
      · omega
    rw [none_]
    cases is_ : pickOf env q family points rows j with
    | none => rfl
    | some pick =>
      have late := (pickOf_eq_some is_).1
      obtain ⟨more, append, -⟩ := periods_take env q rows k
      have inside' : j < (periods env q rows).length := by
        rw [append, List.length_append]
        omega
      exact (write_late before (by omega) (pickOf_real inside' is_)).symm

theorem pick_late {i j : Nat} (before : i < k) (late : (periods env q (rows.take k)).length ≤ j)
    (inside : j < (periods env q rows).length) (value : V) :
    writePeriod env q family points rows i value j = value := by
  unfold writePeriod
  cases is_ : pickOf env q family points rows j with
  | none => rfl
  | some pick =>
    obtain ⟨rest, split, later⟩ := periods_take env q rows k
    have first := (pickOf_eq_some is_).1
    have cut : (begins env (rows.take k)).length ≤ (periods env q rows).getD j 0 := by
      obtain ⟨s, there⟩ : ∃ s, (periods env q rows)[j]? = some s := ⟨_, List.getElem?_eq_getElem inside⟩
      rw [List.getD_eq_getElem?_getD, there, Option.getD_some]
      rw [split, List.getElem?_append_right late] at there
      exact later s (List.mem_of_getElem? there)
    exact write_late before (by omega) (pickOf_real inside is_)

theorem foldl_congr_mem {step step' : V → Nat → V} {js : List Nat}
    (same : ∀ j ∈ js, ∀ value, step value j = step' value j) (value : V) :
    js.foldl step value = js.foldl step' value := by
  induction js generalizing value with
  | nil => rfl
  | cons j js ih =>
    rw [List.foldl_cons, List.foldl_cons, same j List.mem_cons_self]
    exact ih (fun j mem => same j (List.mem_cons_of_mem _ mem)) _

theorem foldl_const_mem {step : V → Nat → V} {js : List Nat} (keeps : ∀ j ∈ js, ∀ value, step value j = value)
    (value : V) : js.foldl step value = value := by
  induction js with
  | nil => rfl
  | cons j js ih =>
    rw [List.foldl_cons, keeps j List.mem_cons_self]
    exact ih fun j mem => keeps j (List.mem_cons_of_mem _ mem)

theorem positionAt_take (inside : k ≤ rows.length) (causal : CausalAt env family rows k) {i : Nat}
    (before : i < k) :
    positionAt env q family points (rows.take k) i = positionAt env q family points rows i := by
  obtain ⟨rest, split, -⟩ := periods_take env q rows k
  have count : (periods env q rows).length = (periods env q (rows.take k)).length + rest.length := by
    rw [split, List.length_append]
  unfold positionAt
  rw [count, List.range_add, List.foldl_append, foldl_congr_mem fun j mem value =>
    pick_take inside causal before (List.mem_range.mp mem) value]
  refine (foldl_const_mem (fun j mem value => ?_) _).symm
  obtain ⟨j', mem', rfl⟩ := List.mem_map.mp mem
  have lt := List.mem_range.mp mem'
  exact pick_late before (Nat.le_add_right _ _) (by omega) value

/-! ## The search before a cut -/

variable [DecidableEq V]

/-- The sets of parameters that a search tries. -/
def tried (E : Type) (env : Env V Row) (q : Request V) : List (Point V) :=
  match (searchPoints env.num env.rng q.space q.trials q.seed : Except (SearchError E) _) with
  | .error _ => []
  | .ok points => points

/-- A trial fails, and no trial earns or loses anything. -/
def Stopped (env : Env V Row) (q : Request V) (family : Family V E Row) (rows : List Row) : Prop :=
  (∃ point ∈ tried E env q, ∃ e, trial env family rows point = .error e) ∧
    ∀ point ∈ tried E env q,
      ∀ value ∈ sessionPnl env rows (trialPositions env family rows point) q.cost q.delay.toNat,
        env.num.truthy value = false

omit [DecidableEq V] in
theorem firstError_isSome : (firstError env family points rows).isSome = true ↔
    ∃ point ∈ points, ∃ e, trial env family rows point = .error e := by
  unfold firstError
  rw [List.findSome?_isSome_iff]
  refine exists_congr fun point => and_congr_right fun _ => ?_
  cases trial env family rows point with
  | error e => exact iff_of_true rfl ⟨e, rfl⟩
  | ok positions => exact iff_of_false nofun fun ⟨_, eq⟩ => nomatch eq

omit [DecidableEq V] in
theorem earns_eq_false : earns env q family points rows = false ↔ ∀ point ∈ points,
    ∀ value ∈ sessionPnl env rows (trialPositions env family rows point) q.cost q.delay.toNat,
      env.num.truthy value = false := by
  unfold earns
  simp only [List.any_eq_false, Bool.not_eq_true]

theorem search_eq_ok {found : Found V} : search env q family rows = .ok found ↔
    (2 ≤ q.trials ∧ q.trials ≤ 64) ∧ rows.length ≠ 0 ∧
      (∃ points, (searchPoints env.num env.rng q.space q.trials q.seed : Except (SearchError E) _) = .ok points) ∧
        (0 ≤ q.delay ∧ q.delay ≤ rows.length) ∧ ¬Stopped env q family rows ∧
          found =
            { positions := (List.range rows.length).map (positionAt env q family (tried E env q) rows)
              picks := (List.range (periods env q rows).length).filterMap
                (pickOf env q family (tried E env q) rows) } := by
  unfold search
  by_cases trials : 2 ≤ q.trials ∧ q.trials ≤ 64
  · rw [if_neg (not_not.mpr trials)]
    by_cases none_ : rows.length = 0
    · rw [if_pos none_]
      exact iff_of_false nofun fun all => all.2.1 none_
    · rw [if_neg none_]
      unfold Stopped tried
      cases is_ : (searchPoints env.num env.rng q.space q.trials q.seed : Except (SearchError E) _) with
      | error e => exact iff_of_false nofun fun all => nomatch all.2.2.1.choose_spec
      | ok points =>
        dsimp only
        by_cases long : q.delay < 0 ∨ (rows.length : Int) < q.delay
        · rw [if_pos long]
          exact iff_of_false nofun fun all => by omega
        · rw [if_neg long]
          rw [← firstError_isSome, ← earns_eq_false]
          have ready : (2 ≤ q.trials ∧ q.trials ≤ 64) ∧ rows.length ≠ 0 ∧
              (∃ points' : List (Point V), (Except.ok points : Except (SearchError E) _) = .ok points') ∧
                0 ≤ q.delay ∧ q.delay ≤ rows.length := ⟨trials, none_, ⟨points, rfl⟩, by omega, by omega⟩
          cases first : firstError env family points rows with
          | none =>
            refine ⟨fun eq => ?_, fun all => ?_⟩
            · exact ⟨ready.1, ready.2.1, ready.2.2.1, ready.2.2.2, by simp, (Except.ok.inj eq).symm⟩
            · exact congrArg Except.ok all.2.2.2.2.2.symm
          | some e =>
            cases earned : earns env q family points rows with
            | false => exact iff_of_false nofun fun all => all.2.2.2.2.1 ⟨rfl, rfl⟩
            | true =>
              refine ⟨fun eq => ?_, fun all => ?_⟩
              · exact ⟨ready.1, ready.2.1, ready.2.2.1, ready.2.2.2, by simp, (Except.ok.inj eq).symm⟩
              · exact congrArg Except.ok all.2.2.2.2.2.symm
  · rw [if_pos trials]
    exact iff_of_false nofun fun all => trials all.1

omit [DecidableEq V] in
theorem block_begins (causal : ∀ k, CausalAt env family rows k) {s start : Nat}
    (there : (begins env rows)[s]? = some start) :
    block env q family points (rows.take start) s = block env q family points rows s := by
  obtain ⟨inside, is_⟩ := List.getElem?_eq_some_iff.mp there
  have within : start < rows.length := lt_of_mem_begins (is_ ▸ List.getElem_mem inside)
  obtain ⟨rest, split, later⟩ := begins_take env rows start
  have order := List.pairwise_iff_getElem.mp (starts_sorted (rows.map fun row => env.session (env.time row)))
  -- the sessions before the row are as many as those before the session
  have count : s ≤ (begins env (rows.take start)).length := by
    by_contra few
    have at_ := there
    have fewer : (begins env (rows.take start)).length < (begins env rows).length := by omega
    have late := le_begins (Nat.le_refl _) (List.getElem?_eq_getElem fewer)
    have early := order _ s fewer inside (by omega)
    have same : (begins env rows)[s] = start := is_
    unfold begins at late early same
    omega
  refine block_take (Nat.le_of_lt within) (causal start) fun d lt => ⟨by omega, ?_⟩
  have inside' : d < (begins env rows).length := by omega
  refine ⟨_, ends_getElem? inside', ?_⟩
  have next : d + 1 < (begins env rows).length := by omega
  rw [List.getElem?_eq_getElem next, Option.getD_some]
  by_cases last : d + 1 = s
  · subst last
    exact Nat.le_of_eq is_
  · have early := order (d + 1) s next inside (by omega)
    have same : (begins env rows)[s] = start := is_
    unfold begins at same ⊢
    omega

/-- A search gives before a cut what it gives there without the cut, exactly if the delay is not longer than the
rows before the cut, and not all trials are idle there while one of them fails. -/
theorem search_take_iff {found : Found V} (causal : ∀ k, CausalAt env family rows k)
    (runs : search env q family rows = .ok found) {k : Nat} (inside : k ≤ rows.length) :
    (∀ i < k, ∃ found', search env q family (rows.take k) = .ok found' ∧
        found'.positions[i]? = found.positions[i]?) ↔
      k = 0 ∨ (q.delay ≤ k ∧ ¬Stopped env q family (rows.take k)) := by
  obtain ⟨trials, some_, points, delay, -, rfl⟩ := search_eq_ok.mp runs
  have length : (rows.take k).length = k := by rw [List.length_take, Nat.min_eq_left inside]
  constructor
  · intro same
    by_cases none_ : k = 0
    · exact .inl none_
    · obtain ⟨found', runs', -⟩ := same 0 (Nat.pos_of_ne_zero none_)
      obtain ⟨-, -, -, delay', stopped, -⟩ := search_eq_ok.mp runs'
      rw [length] at delay'
      exact .inr ⟨delay'.2, stopped⟩
  · rintro (rfl | ⟨short, goes⟩) i before
    · exact absurd before (Nat.not_lt_zero i)
    · refine ⟨_, search_eq_ok.mpr ⟨trials, by omega, points, ⟨delay.1, by rwa [length]⟩, goes, rfl⟩, ?_⟩
      rw [List.getElem?_map, List.getElem?_map, List.getElem?_range (by omega), List.getElem?_range (by omega),
        Option.map_some, Option.map_some, positionAt_take inside (causal k) before]

/-! ## Families that give positions for bars -/

omit [DecidableEq V] in
theorem length_trialPositions (point : Point V) :
    (trialPositions env family rows point).length = rows.length := by
  unfold trialPositions
  cases is_ : trial env family rows point with
  | error e => exact List.length_replicate
  | ok positions =>
    unfold trial at is_
    cases gives : family rows point with
    | error e =>
      rw [gives] at is_
      nomatch is_
    | ok given =>
      rw [gives] at is_
      simp only [positionsOnRows] at is_
      split_ifs at is_ with _ same
      · rw [← Except.ok.inj is_]
        exact same
      · cases given with
        | plain values => nomatch is_
        | stamped pairs =>
          rw [← Except.ok.inj is_]
          exact List.length_map _

/-- What a family does that gives positions with the stamps of their bars: those that are stamped before the last
row before the cut stay without the cut, and there are not as many as rows. -/
structure StampedAt (env : Env V Row) (family : Family V E Row) (rows : List Row) (k : Nat) : Prop where
  latest : ∀ last, rows[k - 1]? = some last → ∀ row ∈ rows.take k, env.time row ≤ env.time last
  bars : ∀ point, ∃ pairs pairs', family rows point = .ok (.stamped pairs) ∧
    family (rows.take k) point = .ok (.stamped pairs') ∧
      pairs.length ≠ rows.length ∧ pairs'.length ≠ (rows.take k).length ∧
        ∀ last, rows[k - 1]? = some last →
          pairs'.filter (fun pair => pair.1 < env.time last) = pairs.filter (fun pair => pair.1 < env.time last)

omit [DecidableEq V] in
/-- The position that is carried onto a row is made of the bars before the row. -/
theorem align_before {pairs pairs' : List (Int × V)} {t last : Int} (upTo : t ≤ last)
    (same : pairs'.filter (fun pair => pair.1 < last) = pairs.filter (fun pair => pair.1 < last)) :
    align env (pairs'.map fun pair => (pair.1 + 1, env.num.nanToNum pair.2)) t =
      align env (pairs.map fun pair => (pair.1 + 1, env.num.nanToNum pair.2)) t := by
  have known (list : List (Int × V)) :
      (list.map fun pair => (pair.1 + 1, env.num.nanToNum pair.2)).filter (fun pair => pair.1 ≤ t) =
        ((list.filter fun pair => pair.1 < last).filter fun pair => pair.1 + 1 ≤ t).map fun pair =>
          (pair.1 + 1, env.num.nanToNum pair.2) := by
    rw [List.filter_map, List.filter_filter]
    refine congrArg _ (List.filter_congr fun pair _ => ?_)
    by_cases early : pair.1 + 1 ≤ t
    · have before : pair.1 < last := by omega
      simp [early, before]
    · simp [early]
  unfold align
  rw [known, known, same]

omit [DecidableEq V] in
/-- Positions of bars before a cut are carried onto the rows before it as without the cut. -/
theorem StampedAt.causalAt (stamped : StampedAt env family rows k) : CausalAt env family rows k := by
  intro point
  by_cases cut : 0 < k ∧ k ≤ rows.length
  · obtain ⟨pairs, pairs', gives, gives', count, count', same⟩ := stamped.bars point
    obtain ⟨last, at_⟩ : ∃ last, rows[k - 1]? = some last :=
      ⟨_, List.getElem?_eq_getElem (by omega)⟩
    have carried {rows : List Row} {pairs : List (Int × V)} (gives : family rows point = .ok (.stamped pairs))
        (some_ : rows.length ≠ 0) (count : pairs.length ≠ rows.length) :
        trialPositions env family rows point = rows.map fun row =>
          align env (pairs.map fun pair => (pair.1 + 1, env.num.nanToNum pair.2)) (env.time row) := by
      unfold trialPositions trial positionsOnRows
      rw [gives]
      simp only [Positions.values, List.length_map, count, some_, or_self, if_false, if_true]
    have length : (rows.take k).length = k := by rw [List.length_take, Nat.min_eq_left cut.2]
    rw [carried gives' (by omega) count', carried gives (by omega) count, ← List.map_take]
    exact List.map_congr_left fun row mem => align_before (stamped.latest last at_ row mem) (same last at_)
  · by_cases none_ : k = 0
    · subst none_
      rw [List.take_zero, List.take_zero]
      exact List.length_eq_zero_iff.mp (length_trialPositions point)
    · rw [List.take_of_length_le (by omega), List.take_of_length_le]
      rw [length_trialPositions]
      omega

/-- A search is walk-forward: it gives before a cut what it gives there without the cut, exactly if the delay is
not longer than the rows before the cut, and not all trials are idle there while one of them fails. The choice at
a session looks at rows before the session only. -/
theorem walkForward_iff (env : Env V Row) (q : Request V) (family : Family V E Row) (rows : List Row)
    (causal : ∀ k, CausalAt env family rows k) {found : Found V} (runs : search env q family rows = .ok found) :
    (∀ k ≤ rows.length,
      (∀ i < k, ∃ found', search env q family (rows.take k) = .ok found' ∧
          found'.positions[i]? = found.positions[i]?) ↔
        k = 0 ∨ (q.delay ≤ k ∧ ¬Stopped env q family (rows.take k))) ∧
    (∀ s start, (begins env rows)[s]? = some start →
      block env q family (tried E env q) (rows.take start) s = block env q family (tried E env q) rows s) ∧
    ∀ (family' : Family V E Row) (rows' : List Row) (k : Nat), StampedAt env family' rows' k →
      CausalAt env family' rows' k :=
  ⟨fun _ inside => search_take_iff causal runs inside, fun _ _ there => block_begins causal there,
    fun _ _ _ stamped => stamped.causalAt⟩

/-! ## Families that look at one row at a time -/

def ruled (rule : Point V → Option (Row → V)) : Family V Unit Row := fun rows point =>
  match rule point with
  | none => .error ()
  | some value => .ok (.plain (rows.map value))

variable (rule : Point V → Option (Row → V))

omit [DecidableEq V] in
theorem trial_ruled (point : Point V) :
    trial env (ruled rule) rows point = match rule point with
      | none => .error (some ())
      | some value => .ok (rows.map fun row => env.num.nanToNum (value row)) := by
  unfold trial ruled
  cases rule point with
  | none => rfl
  | some value => simp [positionsOnRows, Positions.values, Function.comp_def]

omit [DecidableEq V] in
theorem ruled_causalAt : CausalAt env (ruled rule) rows k := by
  intro point
  unfold trialPositions
  rw [trial_ruled, trial_ruled]
  cases rule point with
  | none =>
    show List.replicate _ _ = (List.replicate _ _).take k
    rw [List.take_replicate, List.length_take]
  | some value => exact List.map_take

/-! ## Searches on a few days -/

/-- Rational numbers, of which none is too large. -/
def rationalFloats : Floats ℚ where
  zero := 0
  truthy x := x ≠ 0
  nanToNum x := x
  change p p' := p' / p - 1
  sub x y := x - y
  mul x y := x * y
  abs x := |x|
  sum := List.sum
  float32 x := x

/-- Rows with a moment and a price, days of the first month of the calendar, and a choice of the first trial. -/
def januaryEnv : Env ℚ (Int × ℚ) where
  num := rationalFloats
  rng := { strata := fun _ _ _ => [], place := fun _ _ => 0, intBetween := fun _ lo _ => lo, floatBetween := fun _ lo _ => lo }
  time row := row.1
  price row := row.2
  session t := t / 86400000000000
  month day := day / 31
  pickTrial _ := some 0

def valuesOf (values : List (Value ℚ)) : Request ℚ where
  space := [("z".toList, .oneOf values)]
  trials := 24
  refit := .month
  warmupDays := 10
  lookbackDays := none
  seed := 0
  cost := 1 / 5000
  delay := 0

def rowOf (day hour : Int) (price : ℚ) : Int × ℚ := ((day * 24 + hour) * 3600000000000, price)

/-- A family that is long where the price is more than a hundred, and knows no second value. -/
def breakout : Family ℚ Unit (Int × ℚ) :=
  ruled fun point => if point = [("z".toList, .int 2)] then none else some fun row => if 100 < row.2 then 1 else 0

def twelveDays : List (Int × ℚ) :=
  (List.range 12).flatMap fun (day : Nat) => [rowOf day 15 (100 + day), rowOf day 20 (101 + day)]

theorem not_stopped (rows : List (Int × ℚ)) : ¬Stopped januaryEnv (valuesOf [.int 1]) breakout rows := by
  rintro ⟨⟨point, mem, e, fails⟩, -⟩
  obtain rfl : point = [("z".toList, .int 1)] :=
    List.mem_singleton.mp (show point ∈ [[("z".toList, Value.int 1)]] from mem)
  rw [breakout, trial_ruled] at fails
  nomatch fails

/-- The eleventh day is traded before its second row is seen. -/
theorem breakout_walksForward : ∃ found found',
    search januaryEnv (valuesOf [.int 1]) breakout twelveDays = .ok found ∧
      search januaryEnv (valuesOf [.int 1]) breakout (twelveDays.take 21) = .ok found' ∧
        found'.positions[20]? = found.positions[20]? := by
  obtain ⟨found, runs⟩ : ∃ found, search januaryEnv (valuesOf [.int 1]) breakout twelveDays = .ok found :=
    ⟨_, search_eq_ok.mpr ⟨by decide, by decide, ⟨_, rfl⟩, by decide, not_stopped twelveDays, rfl⟩⟩
  have forward := walkForward_iff januaryEnv (valuesOf [.int 1]) breakout twelveDays
    (fun k => ruled_causalAt _) runs
  obtain ⟨found', runs', same⟩ := (forward.1 21 (by decide)).mpr (.inr ⟨by decide, not_stopped _⟩) 20 (by decide)
  exact ⟨found, found', runs, runs', same⟩

def twoDays : List (Int × ℚ) := [rowOf 0 15 100, rowOf 0 20 100, rowOf 1 15 110, rowOf 1 20 121]

/-- One set of parameters fails, and the search ends with its error while the other one has not traded yet. -/
theorem breakout_stops :
    (∀ k, CausalAt januaryEnv breakout twoDays k) ∧
      (∃ found, search januaryEnv (valuesOf [.int 1, .int 2]) breakout twoDays = .ok found) ∧
        ∀ found, search januaryEnv (valuesOf [.int 1, .int 2]) breakout (twoDays.take 2) ≠ .ok found := by
  refine ⟨fun k => ruled_causalAt _, ⟨_, search_eq_ok.mpr ⟨by decide, by decide, ⟨_, rfl⟩, by decide, ?_, rfl⟩⟩,
    fun found runs => (search_eq_ok.mp runs).2.2.2.2.1 ⟨⟨[("z".toList, .int 2)], ?_, some (), ?_⟩, ?_⟩⟩
  · intro stopped
    have earned : earns januaryEnv (valuesOf [.int 1, .int 2]) breakout
        (tried Unit januaryEnv (valuesOf [.int 1, .int 2])) twoDays = true := by with_unfolding_all decide
    rw [earns_eq_false.mpr stopped.2] at earned
    nomatch earned
  · exact List.mem_cons_of_mem _ (List.mem_singleton_self _)
  · exact trial_ruled _ _
  · have idle : earns januaryEnv (valuesOf [.int 1, .int 2]) breakout
        (tried Unit januaryEnv (valuesOf [.int 1, .int 2])) (twoDays.take 2) = false := by
      with_unfolding_all decide
    exact earns_eq_false.mp idle

end FreeSwarm.Sandbox
